import DocQuery.Pattern.Reader
import DocQuery.Predicate.Operand
import DocQuery.Proofs.Pattern.Tokens

/-!
# Wildcard patterns as regular expressions

The regular expression of a wildcard pattern is read as one item for each of its tokens, so that no
character of the pattern has a meaning of its own (`read?_anchored`). The tokens give back the
pattern, and two patterns with one regular expression are the same one: `like_faithful`.
-/

namespace DocQuery.Pattern

open Text (backslash)

/-- What a token stands for: any number of any characters, or one character. -/
def Token.regular : Token → Regular
  | any => .repeated (.char .every) 0 none .greedy
  | char c => .char (.one c.toNat)

/-- Items one after the other. -/
def Regular.sequence (rs : List Regular) : Regular :=
  rs.foldr .seq .empty

/-- The items of tokens between anchors. -/
def anchoredItems (start : Bool) (ts : List Token) (stop : Bool) : List Regular :=
  (if start then [.textStart] else []) ++ ts.map Token.regular ++ if stop then [.textEnd] else []

/-- Tokens between anchors as one regular expression. -/
def Regular.ofTokens (start : Bool) (ts : List Token) (stop : Bool) : Regular :=
  .sequence (anchoredItems start ts stop)

variable {c : CodePoint} {cs rest : Text} {s t : Reading} {a : Token} {ts : List Token}

theorem readItems_cons (h : readItem s c cs = some (t, rest)) (hlen : rest.length ≤ cs.length) :
    readItems s (c :: cs) = readItems t rest := by
  have hlt : rest.length < (c :: cs).length := Nat.lt_succ_of_le hlen
  rw [readItems, h]
  exact dif_pos hlt

/-- Blanks and comments between items are not layout. -/
def Plain (s : Reading) : Prop :=
  s.frame.layout = false

theorem readItem_of_plain (h : Plain s) (hc : c ∉ specials) (cs : Text) :
    readItem s c cs = some (s.push (.char (.one c.toNat)), cs) := by
  have hlayout : s.frame.layout = false := h
  have hspecial : ∀ d ∈ specials, c ≠ d := fun d hd hcd => hc (hcd ▸ hd)
  unfold readItem
  rw [hlayout]
  simp only [Bool.false_and, Bool.false_eq_true, if_false]
  split
  case h_13 => rfl
  all_goals exact absurd rfl (hspecial _ (by decide))

/-- The characters that are items of their own. -/
def markItems : List (CodePoint × Regular) :=
  [('.', .char .every), ('^', .textStart), ('$', .textEnd)]

theorem readItem_of_mem_markItems {r : Regular} (h : Plain s) (hr : (c, r) ∈ markItems)
    (cs : Text) : readItem s c cs = some (s.push r, cs) := by
  have hlayout : s.frame.layout = false := h
  simp only [markItems, List.mem_cons, Prod.mk.injEq, List.not_mem_nil, or_false] at hr
  unfold readItem
  rw [hlayout]
  rcases hr with ⟨rfl, rfl⟩ | ⟨rfl, rfl⟩ | ⟨rfl, rfl⟩ <;> rfl

theorem readEscape_of_mem (h : c ∈ specials) (cs : Text) :
    readEscape (c :: cs) = some (.char (.one c.toNat), cs) := by
  -- Decided along the list: for a bounded quantifier, an instance over all characters may be found.
  have hspecials : specials.all fun c => edgeLetters.lookup c = none ∧ setLetters.lookup c = none ∧
      c.is Char.isDigit = false ∧ controlLetters.lookup c = none ∧ hexWidths.lookup c = none ∧
      c.is Char.isAlphanum = false := by decide
  obtain ⟨hedge, hset, hdigit, hcontrol, hhex, halpha⟩ :=
    of_decide_eq_true (List.all_eq_true.mp hspecials c h)
  simp [readEscape, readCharEscape, hedge, hset, hdigit, hcontrol, hhex, halpha]

theorem readItem_backslash (h : Plain s) (hc : c ∈ specials) (cs : Text) :
    readItem s (.char backslash) (c :: cs) = some (s.push (.char (.one c.toNat)), cs) := by
  have hlayout : s.frame.layout = false := h
  unfold readItem
  rw [hlayout]
  show (readEscape (c :: cs)).map _ = _
  rw [readEscape_of_mem hc]
  rfl

/-- The text does not begin with a mark that says which repetitions of an item are preferred. -/
def NoMark (cs : Text) : Prop :=
  cs.head? ≠ some (.char '?') ∧ cs.head? ≠ some (.char '+')

theorem noMark_text_append (a : Token) (cs : Text) : NoMark (a.text ++ cs) :=
  ⟨head?_text_append a cs (by decide) (by decide) (by decide),
    head?_text_append a cs (by decide) (by decide) (by decide)⟩

theorem noMark_flatMap_text (ts : List Token) (h : NoMark cs) :
    NoMark (ts.flatMap Token.text ++ cs) := by
  cases ts with
  | nil => exact h
  | cons a ts =>
    rw [List.flatMap_cons, List.append_assoc]
    exact noMark_text_append a _

theorem readRepeated_push (h : NoMark cs) (s : Reading) (r : Regular) :
    readRepeated (s.push r) 0 none cs = some (s.push (.repeated r 0 none .greedy), cs) := by
  unfold readRepeated
  split
  · next heq =>
    split at heq
    · exact absurd rfl h.1
    · exact absurd rfl h.2
    · obtain ⟨rfl, rfl⟩ := heq
      rfl

theorem readItems_text (hs : Plain s) (hcs : NoMark cs) (a : Token) :
    readItems s (a.text ++ cs) = readItems (s.push a.regular) cs := by
  cases a with
  | any =>
    have hdot : readItem s (.char '.') (.char '*' :: cs) =
        some (s.push (.char .every), .char '*' :: cs) :=
      readItem_of_mem_markItems hs (by simp [markItems]) _
    have hstar : readItem (s.push (.char .every)) (.char '*') cs =
        some (s.push (Token.any).regular, cs) := by
      have hlayout : (s.push (.char .every)).frame.layout = false := hs
      unfold readItem
      rw [hlayout]
      exact readRepeated_push hcs s (.char .every)
    exact (readItems_cons hdot (Nat.le_refl _)).trans (readItems_cons hstar (Nat.le_refl _))
  | char c =>
    by_cases hc : c ∈ specials
    · rw [Token.text, escapePoint_of_mem hc]
      exact readItems_cons (readItem_backslash hs hc cs) (by simp)
    · rw [Token.text, escapePoint_of_not_mem hc]
      exact readItems_cons (readItem_of_plain hs hc cs) (Nat.le_refl _)

theorem plain_foldl_push (hs : Plain s) (rs : List Regular) : Plain (rs.foldl Reading.push s) := by
  induction rs generalizing s with
  | nil => exact hs
  | cons r rs ih => exact ih hs

theorem readItems_flatMap_text (hs : Plain s) (hcs : NoMark cs) (ts : List Token) :
    readItems s (ts.flatMap Token.text ++ cs) =
      readItems ((ts.map Token.regular).foldl Reading.push s) cs := by
  induction ts generalizing s with
  | nil => rfl
  | cons a ts ih =>
    rw [List.flatMap_cons, List.append_assoc, readItems_text hs (noMark_flatMap_text ts hcs)]
    exact ih (s := s.push a.regular) hs

theorem readItems_start (hs : Plain s) (start : Bool) (cs : Text) :
    readItems s ((if start then [.char '^'] else []) ++ cs) =
      readItems ((if start then [.textStart] else []).foldl Reading.push s) cs := by
  cases start with
  | false => rfl
  | true =>
    have hitem : readItem s (.char '^') cs = some (s.push .textStart, cs) :=
      readItem_of_mem_markItems hs (by simp [markItems]) cs
    exact readItems_cons hitem (Nat.le_refl _)

theorem readItems_stop (hs : Plain s) (stop : Bool) :
    readItems s (if stop then [.char '$'] else []) =
      some ((if stop then [.textEnd] else []).foldl Reading.push s) := by
  cases stop with
  | false => exact readItems.eq_1 s
  | true =>
    have hitem : readItem s (.char '$') [] = some (s.push .textEnd, []) :=
      readItem_of_mem_markItems hs (by simp [markItems]) []
    exact (readItems_cons hitem (Nat.le_refl _)).trans (readItems.eq_1 _)

theorem foldl_push (s : Reading) (rs : List Regular) :
    rs.foldl Reading.push s =
      { s with frame := { s.frame with items := rs.reverse ++ s.frame.items } } := by
  induction rs generalizing s with
  | nil => rfl
  | cons r rs ih =>
    rw [List.foldl_cons, ih]
    simp [Reading.push, Frame.push]

/-- The text of tokens between anchors is read as the items of these and nothing else. -/
theorem read?_anchored {flags : Nat} (hflags : flags / layoutBit % 2 = 0) (start : Bool)
    (ts : List Token) (stop : Bool) :
    Regular.read? flags (anchored start ts stop) = some (.ofTokens start ts stop, flags) := by
  let s : Reading := { frame := { layout := flags / layoutBit % 2 = 1 }, flags }
  have hs : Plain s := decide_eq_false (by omega)
  have hstop : NoMark (if stop then [.char '$'] else []) := by
    cases stop <;> exact ⟨by decide, by decide⟩
  have hitems : readItems s (anchored start ts stop) =
      some ((anchoredItems start ts stop).foldl Reading.push s) := by
    rw [anchored, List.append_assoc, readItems_start hs,
      readItems_flatMap_text (plain_foldl_push hs _) hstop,
      readItems_stop (plain_foldl_push (plain_foldl_push hs _) _), anchoredItems,
      List.foldl_append, List.foldl_append]
  have hread : Regular.read? flags (anchored start ts stop) =
      (readItems s (anchored start ts stop)).bind fun s =>
        if s.outer.isEmpty then some (s.frame.body, s.flags) else none := rfl
  rw [hread, hitems, foldl_push]
  simp [s, Frame.body, Frame.current, Regular.ofTokens, Regular.sequence]

theorem read?_like (cs : Text) :
    Regular.read? Flags.ignoreCase.bits.toNat (like cs) =
      some (.ofTokens (cs.head? ≠ some (.char '%')) (tokens cs) (cs.getLast? ≠ some (.char '%')),
        Flags.ignoreCase.bits.toNat) := by
  rw [like_eq_anchored]
  exact read?_anchored rfl _ _ _

theorem like_injective {cs ds : Text} (h : like cs = like ds) : cs = ds := by
  rw [like_eq_anchored cs, like_eq_anchored ds] at h
  have htokens := congrArg (List.map Token.sign) (anchored_inj h).2.1
  rwa [tokens, tokens, map_sign_tokensAfter, map_sign_tokensAfter] at htokens

end DocQuery.Pattern

namespace DocQuery

open Pattern

/-- The regular expression of a wildcard pattern is the text of one list of tokens between anchors.
These tokens give back the pattern, each is read as the one item that it stands for, and no other
pattern has the same regular expression. -/
theorem like_faithful (cs : Text) :
    (∃ start ts stop,
      (∀ start' us stop', like cs = anchored start' us stop' ↔
        start' = start ∧ us = ts ∧ stop' = stop) ∧
      (start = false ↔ cs.head? = some (.char '%')) ∧
      (stop = false ↔ cs.getLast? = some (.char '%')) ∧
      ts.map Token.sign = cs ∧
      Regular.read? Flags.ignoreCase.bits.toNat (like cs) =
        some (.ofTokens start ts stop, Flags.ignoreCase.bits.toNat)) ∧
    ∀ ds, likeRegex ds = likeRegex cs ↔ ds = cs := by
  refine ⟨⟨_, _, _, fun _ _ _ => like_eq_anchored_iff, ?_, ?_, map_sign_tokensAfter false cs,
    read?_like cs⟩, fun ds => ⟨fun h => ?_, fun h => congrArg likeRegex h⟩⟩
  · rw [decide_eq_false_iff_not, Decidable.not_not]
  · rw [decide_eq_false_iff_not, Decidable.not_not]
  · unfold likeRegex at h
    injection h with hpattern
    injection hpattern with hchars
    exact like_injective hchars

end DocQuery

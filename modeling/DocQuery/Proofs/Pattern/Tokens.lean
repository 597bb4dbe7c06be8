import DocQuery.Pattern.Notation
import DocQuery.Proofs.Text.Numerals

/-!
# The tokens of wildcard patterns

A wildcard pattern is read as tokens: percent signs that are open to any text, and characters that
stand for themselves. `tokens` says which sign is which: a sign is open unless a backslash or an
open sign stands right before it. The regular expression of a pattern is the text of its tokens
between anchors (`like_eq_anchored`), and such a text is that of one list of tokens only
(`anchored_inj`). It is open at its ends as `open_ends` says.
-/

namespace DocQuery.Pattern

open Text (backslash)

/-- A part of a wildcard pattern. -/
inductive Token where
  /-- A percent sign that stands for any text. -/
  | any
  /-- A character that stands for itself. -/
  | char (c : CodePoint)
deriving DecidableEq, Repr

/-- The token in the wildcard pattern. -/
def Token.sign : Token → CodePoint
  | any => '%'
  | char c => c

/-- The token in the regular expression. -/
def Token.text : Token → Text
  | any => anyText
  | char c => escapePoint c

/-- The token of a character where every percent sign is open. -/
def Token.ofChar (c : CodePoint) : Token :=
  if c = '%' then .any else .char c

/-- The tokens of what follows a character; `closed` says whether a percent sign right after that
character stands for itself. -/
def tokensAfter (closed : Bool) : Text → List Token
  | [] => []
  | c :: cs =>
    if c = '%' ∧ closed = false then .any :: tokensAfter true cs
    else .char c :: tokensAfter (c = backslash) cs

/-- The tokens of a wildcard pattern. -/
def tokens (cs : Text) : List Token :=
  tokensAfter false cs

/-- No two percent signs stand next to each other. -/
def SignsApart (cs : Text) : Prop :=
  ¬ [.char '%', .char '%'] <:+: cs

instance (cs : Text) : Decidable (SignsApart cs) :=
  inferInstanceAs (Decidable (¬ _))

/-- The text of tokens, with an anchor at its start and at its end if there is to be one. -/
def anchored (start : Bool) (ts : List Token) (stop : Bool) : Text :=
  (if start then [.char '^'] else []) ++ ts.flatMap Token.text ++ if stop then [.char '$'] else []

variable {c d : CodePoint} {cs : Text} {a b : Token} {ts us : List Token}

theorem escapePoint_of_mem (h : c ∈ specials) : escapePoint c = [.char backslash, c] := if_pos h

theorem escapePoint_of_not_mem (h : c ∉ specials) : escapePoint c = [c] := if_neg h

theorem escape_cons (c : CodePoint) (cs : Text) :
    escape (c :: cs) = escapePoint c ++ escape cs := rfl

theorem percent_not_mem_specials : CodePoint.char '%' ∉ specials := by decide

theorem backslash_mem_specials : CodePoint.char backslash ∈ specials := by decide

/-- The escape of a character begins with a percent sign only if it is one. -/
theorem exists_escapePoint_eq_cons (h : c ≠ '%') :
    ∃ d ds, escapePoint c = d :: ds ∧ d ≠ '%' := by
  by_cases hc : c ∈ specials
  · exact ⟨.char backslash, [c], escapePoint_of_mem hc, by decide⟩
  · exact ⟨c, [], escapePoint_of_not_mem hc, h⟩

theorem tokensAfter_cons_of_ne (h : c ≠ '%') (closed : Bool) (cs : Text) :
    tokensAfter closed (c :: cs) = .char c :: tokensAfter (c = backslash) cs := by
  rw [tokensAfter, if_neg (fun hc => h hc.1)]

theorem tokensAfter_true_cons (c : CodePoint) (cs : Text) :
    tokensAfter true (c :: cs) = .char c :: tokensAfter (c = backslash) cs := by
  rw [tokensAfter, if_neg (fun hc => Bool.noConfusion hc.2)]

theorem tokensAfter_false_percent (cs : Text) :
    tokensAfter false (CodePoint.char '%' :: cs) = .any :: tokensAfter true cs := rfl

/-- What is read as tokens is the wildcard pattern itself. -/
@[simp]
theorem map_sign_tokensAfter (closed : Bool) (cs : Text) :
    (tokensAfter closed cs).map Token.sign = cs := by
  induction cs generalizing closed with
  | nil => rfl
  | cons c cs ih =>
    rw [tokensAfter]
    split
    · next h => rw [List.map_cons, ih, h.1]; rfl
    · rw [List.map_cons, ih]; rfl

/-! ### Opening the signs of an escaped text -/

theorem openInner_cons_of_ne (h : d ≠ '%') (c : CodePoint) (cs : Text) :
    openInner (c :: d :: cs) = c :: openInner (d :: cs) := by
  rw [openInner]
  intro rest hrest
  exact h (List.cons.inj hrest).1

theorem openInner_cons_percent (c : CodePoint) (cs : Text) :
    openInner (c :: CodePoint.char '%' :: cs) =
      if c = backslash then c :: openInner (CodePoint.char '%' :: cs)
      else c :: anyText ++ openInner cs := rfl

/-- By induction on the pattern, both for a text that begins with the escape of its first character
and for one in which a character stands before it: each is the other for a shorter text. -/
theorem openInner_escape (cs : Text) :
    openInner (escape cs) = (tokensAfter true cs).flatMap Token.text ∧
      ∀ c, openInner (c :: escape cs) =
        c :: (tokensAfter (c = backslash) cs).flatMap Token.text := by
  induction cs with
  | nil => exact ⟨rfl, fun c => rfl⟩
  | cons d cs ih =>
    obtain ⟨htail, hafter⟩ := ih
    have hwhole : openInner (escape (d :: cs)) =
        (tokensAfter true (d :: cs)).flatMap Token.text := by
      rw [tokensAfter_true_cons, escape_cons, List.flatMap_cons, Token.text]
      by_cases hd : d ∈ specials
      · have hne : d ≠ '%' := fun h => percent_not_mem_specials (h ▸ hd)
        rw [escapePoint_of_mem hd]
        exact (openInner_cons_of_ne hne _ _).trans (congrArg _ (hafter d))
      · rw [escapePoint_of_not_mem hd]
        exact hafter d
    refine ⟨hwhole, fun c => ?_⟩
    by_cases hd : d = '%'
    · subst hd
      have hescape : escape (CodePoint.char '%' :: cs) = CodePoint.char '%' :: escape cs := by
        rw [escape_cons, escapePoint_of_not_mem percent_not_mem_specials]
        rfl
      rw [hescape, openInner_cons_percent]
      by_cases hc : c = backslash
      · rw [if_pos hc, decide_eq_true hc, ← hwhole, hescape]
      · rw [if_neg hc, decide_eq_false hc, htail]
        rfl
    · obtain ⟨e, es, hes, he⟩ := exists_escapePoint_eq_cons hd
      rw [tokensAfter_cons_of_ne hd, ← tokensAfter_true_cons, ← hwhole, escape_cons, hes]
      exact openInner_cons_of_ne he c _

theorem openWildcards_escape (cs : Text) :
    openWildcards (escape cs) = (tokens cs).flatMap Token.text := by
  cases cs with
  | nil => rfl
  | cons c cs =>
    by_cases hc : c = '%'
    · subst hc
      rw [escape_cons, escapePoint_of_not_mem percent_not_mem_specials]
      exact congrArg (anyText ++ ·) (openInner_escape cs).1
    · obtain ⟨d, ds, hds, hd⟩ := exists_escapePoint_eq_cons hc
      rw [tokens, tokensAfter_cons_of_ne hc, ← tokensAfter_true_cons, ← (openInner_escape _).1,
        escape_cons, hds, List.cons_append, openWildcards]
      intro rest hrest
      exact hd (List.cons.inj hrest).1

/-- The regular expression of a wildcard pattern is the text of its tokens, open at an end that is a
percent sign. -/
theorem like_eq_anchored (cs : Text) :
    like cs =
      anchored (cs.head? ≠ some (.char '%')) (tokens cs) (cs.getLast? ≠ some (.char '%')) := by
  rw [like, openWildcards_escape, anchored]
  by_cases hfirst : cs.head? = some (.char '%') <;>
    by_cases hlast : cs.getLast? = some (.char '%') <;>
    simp only [hfirst, hlast, ne_eq, not_true, not_false_iff, if_true, if_false, decide_true,
      decide_false, Bool.false_eq_true] <;> rfl

theorem escapePoint_append_inj {r s : Text} (h : escapePoint c ++ r = escapePoint d ++ s) :
    c = d ∧ r = s := by
  by_cases hc : c ∈ specials <;> by_cases hd : d ∈ specials
  · simpa [escapePoint_of_mem hc, escapePoint_of_mem hd] using h
  · rw [escapePoint_of_mem hc, escapePoint_of_not_mem hd] at h
    exact absurd ((List.cons.inj h).1 ▸ backslash_mem_specials) hd
  · rw [escapePoint_of_not_mem hc, escapePoint_of_mem hd] at h
    exact absurd ((List.cons.inj h).1 ▸ backslash_mem_specials) hc
  · simpa [escapePoint_of_not_mem hc, escapePoint_of_not_mem hd] using h

theorem anyText_append_ne (c : CodePoint) (r s : Text) : anyText ++ r ≠ escapePoint c ++ s := by
  intro h
  by_cases hc : c ∈ specials
  · rw [escapePoint_of_mem hc] at h
    exact absurd (List.cons.inj h).1 (by decide)
  · rw [escapePoint_of_not_mem hc] at h
    obtain rfl : CodePoint.char '.' = c := (List.cons.inj h).1
    exact hc (by decide)

/-- No text of a token begins that of another one. -/
theorem text_append_inj {r s : Text} (h : a.text ++ r = b.text ++ s) : a = b ∧ r = s := by
  cases a <;> cases b
  · exact ⟨rfl, List.append_cancel_left h⟩
  · exact absurd h (anyText_append_ne _ _ _)
  · exact absurd h.symm (anyText_append_ne _ _ _)
  · obtain ⟨rfl, hrs⟩ := escapePoint_append_inj h
    exact ⟨rfl, hrs⟩

/-- The characters that no text of a token begins with. -/
theorem head?_text_append (a : Token) (r : Text) (h : c ∈ specials) (hb : c ≠ backslash)
    (hdot : c ≠ '.') : (a.text ++ r).head? ≠ some c := by
  cases a with
  | any => simpa [Token.text, anyText, Text.ofString, Text.ofChars] using hdot.symm
  | char d =>
    by_cases hd : d ∈ specials
    · simpa [Token.text, escapePoint_of_mem hd] using hb.symm
    · rw [Token.text, escapePoint_of_not_mem hd]
      rintro ⟨⟩
      exact hd h

theorem head?_flatMap_text_append (ts : List Token) (r : Text) (h : c ∈ specials)
    (hb : c ≠ backslash) (hdot : c ≠ '.') (hr : r.head? ≠ some c) :
    (ts.flatMap Token.text ++ r).head? ≠ some c := by
  cases ts with
  | nil => exact hr
  | cons a ts =>
    rw [List.flatMap_cons, List.append_assoc]
    exact head?_text_append a _ h hb hdot

theorem text_ne_nil (a : Token) : a.text ≠ [] := by
  cases a with
  | any => exact List.cons_ne_nil _ _
  | char c =>
    rw [Token.text, escapePoint]
    split <;> exact List.cons_ne_nil _ _

theorem text_append_ne_stop (a : Token) (r : Text) (stop : Bool) :
    a.text ++ r ≠ if stop then [.char '$'] else [] := by
  intro h
  cases stop with
  | true =>
    have hhead : (a.text ++ r).head? = some (.char '$') := congrArg List.head? h
    exact head?_text_append a r (by decide) (by decide) (by decide) hhead
  | false => exact text_ne_nil a (List.append_eq_nil_iff.mp h).1

theorem flatMap_text_append_inj {stop stop' : Bool}
    (h : (ts.flatMap Token.text ++ if stop then [.char '$'] else []) =
      us.flatMap Token.text ++ if stop' then [.char '$'] else []) : ts = us ∧ stop = stop' := by
  obtain ⟨rfl, hstop⟩ := Text.flatMap_append_inj
    (fun _ _ _ _ _ _ => text_append_inj) (fun a _ r => text_append_ne_stop a r stop)
    (fun a _ r => text_append_ne_stop a r stop') h
  refine ⟨rfl, ?_⟩
  cases stop <;> cases stop' <;> simp_all

/-- A text is that of one list of tokens, and has its anchors or has not. -/
theorem anchored_inj {start start' stop stop' : Bool}
    (h : anchored start ts stop = anchored start' us stop') :
    start = start' ∧ ts = us ∧ stop = stop' := by
  have hhead : ∀ (ts : List Token) (stop : Bool),
      (ts.flatMap Token.text ++ if stop then [CodePoint.char '$'] else []).head? ≠
        some (.char '^') := fun ts stop =>
    head?_flatMap_text_append ts _ (by decide) (by decide) (by decide) (by cases stop <;> decide)
  unfold anchored at h
  rw [List.append_assoc, List.append_assoc] at h
  cases start <;> cases start'
  · exact ⟨rfl, flatMap_text_append_inj h⟩
  · exact absurd (congrArg List.head? h) (hhead ts stop)
  · exact absurd (congrArg List.head? h).symm (hhead us stop')
  · exact ⟨rfl, flatMap_text_append_inj (List.cons.inj h).2⟩

theorem like_eq_anchored_iff {start stop : Bool} :
    like cs = anchored start ts stop ↔
      start = decide (cs.head? ≠ some (.char '%')) ∧ ts = tokens cs ∧
        stop = decide (cs.getLast? ≠ some (.char '%')) := by
  rw [like_eq_anchored]
  constructor
  · intro h
    obtain ⟨rfl, rfl, rfl⟩ := anchored_inj h
    exact ⟨rfl, rfl, rfl⟩
  · rintro ⟨rfl, rfl, rfl⟩
    rfl

theorem head?_tokens_eq_any_iff : (tokens cs).head? = some .any ↔ cs.head? = some (.char '%') := by
  cases cs with
  | nil => exact iff_of_false (nofun) (nofun)
  | cons c cs =>
    by_cases hc : c = '%'
    · subst hc
      exact iff_of_true rfl rfl
    · rw [tokens, tokensAfter_cons_of_ne hc]
      exact iff_of_false (by simp) (by simp [hc])

/-- The last token is the last character of the pattern, or is open where that is a sign. -/
theorem getLast?_tokens (cs : Text) : (tokens cs).getLast?.map Token.sign = cs.getLast? := by
  rw [← List.getLast?_map, tokens, map_sign_tokensAfter]

/-- Whether a percent sign after the text stands for itself. -/
def closedAfter (closed : Bool) (cs : Text) : Bool :=
  cs.foldl (fun closed c =>
    if c = .char '%' ∧ closed = false then true else c = .char backslash) closed

theorem tokensAfter_append (closed : Bool) (cs ds : Text) :
    tokensAfter closed (cs ++ ds) =
      tokensAfter closed cs ++ tokensAfter (closedAfter closed cs) ds := by
  induction cs generalizing closed with
  | nil => rfl
  | cons c cs ih =>
    rw [List.cons_append, tokensAfter, tokensAfter, closedAfter, List.foldl_cons]
    split
    · rw [ih]; rfl
    · rw [ih]; rfl

theorem closedAfter_concat_of_ne (h : c ≠ '%') (closed : Bool) (cs : Text) :
    closedAfter closed (cs ++ [c]) = decide (c = backslash) := by
  rw [closedAfter, List.foldl_append]
  simp [h]

theorem getLast?_tokens_concat_percent (cs : Text) :
    (tokens (cs ++ [.char '%'])).getLast? =
      some (if closedAfter false cs then .char (.char '%') else .any) := by
  rw [tokens, tokensAfter_append]
  cases closedAfter false cs <;> simp [tokensAfter]

theorem getLast?_tokens_of_escaped (h : [.char backslash, .char '%'] <:+ cs) :
    (tokens cs).getLast? = some (.char (.char '%')) := by
  obtain ⟨ds, rfl⟩ := h
  rw [List.append_cons, getLast?_tokens_concat_percent, closedAfter_concat_of_ne (by decide)]
  rfl

/-- A sign at the end of the pattern that no other one stands before is open unless a backslash
does. -/
theorem getLast?_tokens_eq_any_iff (h : SignsApart cs) :
    (tokens cs).getLast? = some .any ↔
      cs.getLast? = some (.char '%') ∧ ¬ [.char backslash, .char '%'] <:+ cs := by
  constructor
  · intro hany
    have hlast : cs.getLast? = some (.char '%') := by rw [← getLast?_tokens, hany]; rfl
    refine ⟨hlast, fun hsuffix => ?_⟩
    rw [getLast?_tokens_of_escaped hsuffix] at hany
    exact absurd hany (by decide)
  · rintro ⟨hlast, hsuffix⟩
    obtain ⟨ds, rfl⟩ := List.getLast?_eq_some_iff.mp hlast
    rw [getLast?_tokens_concat_percent]
    rcases List.eq_nil_or_concat ds with rfl | ⟨ds, c, rfl⟩
    · rfl
    · rw [List.concat_eq_append] at *
      have hpercent : c ≠ '%' := by
        rintro rfl
        exact h ⟨ds, [], by simp⟩
      have hbackslash : c ≠ backslash := by
        rintro rfl
        exact hsuffix ⟨ds, by simp⟩
      rw [closedAfter_concat_of_ne hpercent, decide_eq_false hbackslash]
      rfl

theorem signsApart_cons_iff :
    SignsApart (c :: cs) ↔ ¬ (c = '%' ∧ cs.head? = some (.char '%')) ∧ SignsApart cs := by
  have hhead : [.char '%'] <+: cs ↔ cs.head? = some (.char '%') := by
    cases cs with
    | nil => simp
    | cons d cs => simp [List.cons_prefix_cons, eq_comm]
  unfold SignsApart
  rw [List.infix_cons_iff, List.cons_prefix_cons, hhead, not_or, eq_comm]

/-- By induction on the pattern: a sign is closed by the open sign before it and by nothing else. -/
theorem tokensAfter_eq_map_ofChar_iff (hb : CodePoint.char backslash ∉ cs) (closed : Bool) :
    tokensAfter closed cs = cs.map Token.ofChar ↔
      (closed = true → cs.head? ≠ some (.char '%')) ∧ SignsApart cs := by
  induction cs generalizing closed with
  | nil => exact iff_of_true rfl ⟨nofun, by decide⟩
  | cons c cs ih =>
    obtain ⟨hc, hcs⟩ : c ≠ backslash ∧ CodePoint.char backslash ∉ cs := by simpa [eq_comm] using hb
    rw [List.map_cons, signsApart_cons_iff, Token.ofChar]
    by_cases hp : c = '%'
    · subst hp
      cases closed with
      | false => simp [tokensAfter_false_percent, ih hcs]
      | true => simp [tokensAfter_true_cons]
    · simp [tokensAfter_cons_of_ne hp, hp, decide_eq_false hc, ih hcs]

theorem tokens_eq_map_ofChar_iff (hb : CodePoint.char backslash ∉ cs) :
    tokens cs = cs.map Token.ofChar ↔ SignsApart cs :=
  (tokensAfter_eq_map_ofChar_iff hb false).trans (and_iff_right nofun)

theorem tokens_eq_map_ofChar_of_not_mem (h : .char (.char '%') ∉ tokens cs) :
    tokens cs = cs.map Token.ofChar := by
  have hofChar : ∀ a ∈ tokens cs, Token.ofChar a.sign = a := by
    intro a ha
    cases a with
    | any => rfl
    | char c =>
      have hc : c ≠ '%' := by rintro rfl; exact h ha
      exact if_neg hc
  calc
    tokens cs = (tokens cs).map fun a => Token.ofChar a.sign := by
      rw [List.map_congr_left hofChar, List.map_id']
    _ = ((tokens cs).map Token.sign).map Token.ofChar := by rw [List.map_map]; rfl
    _ = cs.map Token.ofChar := by rw [tokens, map_sign_tokensAfter]

/-! ### Open ends -/

/-- Where no two percent signs stand next to each other, the regular expression is open at its start
exactly where its first token is an open sign. At its end it is open exactly where its last token is
one, or where the pattern ends with a sign after a backslash, which is no open one. -/
theorem open_ends (h : SignsApart cs) :
    ∃ start ts stop,
      (∀ start' us stop', like cs = anchored start' us stop' ↔
        start' = start ∧ us = ts ∧ stop' = stop) ∧
      (start = false ↔ ts.head? = some .any) ∧
      (¬ [.char backslash, .char '%'] <:+ cs → (stop = false ↔ ts.getLast? = some .any)) ∧
      ([.char backslash, .char '%'] <:+ cs →
        stop = false ∧ ts.getLast? = some (.char (.char '%'))) := by
  refine ⟨_, _, _, fun _ _ _ => like_eq_anchored_iff, ?_, ?_, ?_⟩
  · rw [head?_tokens_eq_any_iff, decide_eq_false_iff_not, Decidable.not_not]
  · intro hsuffix
    rw [getLast?_tokens_eq_any_iff h, decide_eq_false_iff_not, Decidable.not_not]
    exact (and_iff_left hsuffix).symm
  · intro hsuffix
    have hlast := getLast?_tokens_of_escaped hsuffix
    refine ⟨?_, hlast⟩
    rw [← getLast?_tokens, hlast]
    rfl

/-- A pattern that is open at its end, which is a sign that stands for itself. -/
theorem open_ends_escaped_sign :
    let cs : Text := "%a\\%"
    let ts : List Token := [.any, .char 'a', .char backslash, .char '%']
    SignsApart cs ∧ [.char backslash, .char '%'] <:+ cs ∧ like cs = anchored false ts false ∧
      ts.head? = some .any ∧ ts.getLast? = some (.char (.char '%')) := by
  intro cs ts
  have hapart : SignsApart cs := by decide
  have hsuffix : [.char backslash, .char '%'] <:+ cs := by decide
  have hlike : like cs = anchored false ts false := by decide
  obtain ⟨start, us, stop, hreads, hstart, -, hstop⟩ := open_ends hapart
  obtain ⟨rfl, rfl, rfl⟩ := (hreads _ _ _).mp hlike
  exact ⟨hapart, hsuffix, hlike, hstart.mp rfl, (hstop hsuffix).2⟩

/-- That a pattern is open at its end does not say that its last token is an open sign. -/
theorem exists_open_end :
    let cs : Text := "a\\%"
    SignsApart cs ∧ like cs = "^a\\\\%" ∧
      ¬ ∀ start ts stop, like cs = anchored start ts stop →
        (stop = false ↔ ts.getLast? = some .any) := by
  refine ⟨by decide, by decide, fun h => ?_⟩
  have hlike : like ("a\\%" : String) =
    anchored true [.char 'a', .char backslash, .char '%'] false := by decide
  exact absurd ((h _ _ _ hlike).mp rfl) (by decide)

end DocQuery.Pattern

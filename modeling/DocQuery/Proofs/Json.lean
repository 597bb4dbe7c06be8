import DocQuery.Json
import DocQuery.Proofs.Fallible
import DocQuery.Proofs.Text.Halves
import DocQuery.Proofs.Text.Numerals

/-!
# Compact JSON can be read back

A JSON value without reals is printed like another one exactly where the two are the same but for
the halves of characters (`compact_eq_iff`): the text is read back unit by unit, and a character
from U+10000 on has the units of its halves. The text that a value has, however long its integers
are, is its `layout`, so that `compact` is the layout where it has a result (`compact_eq_ok_iff`).
-/

namespace DocQuery.Json

open Text (NoDigit noDigit_nil noDigit_cons backslash doubleQuote halved hex_append_inj
  signed_append_inj)

variable {p q : CodePoint} {r s : List Char}

theorem unitEscape_append_inj {m n : Nat} (hm : m < 0x10000) (hn : n < 0x10000)
    (h : unitEscape m ++ r = unitEscape n ++ s) : m = n ∧ r = s := by
  obtain ⟨hmn, hrs⟩ := hex_append_inj (List.cons.inj (List.cons.inj h).2).2
  exact ⟨by omega, hrs⟩

/-- The character that a backslash and a letter other than `u` stand for. -/
def ofShort (e : Char) : Char :=
  if e = 'n' then '\n' else if e = 'r' then '\r' else if e = 't' then '\t'
  else if e = 'f' then '\x0c' else if e = 'b' then '\x08' else e

/-- A character is written by a short escape, as it is, or by its units. -/
theorem escapeChar_cases (c : Char) :
    (∃ e, e ≠ 'u' ∧ escapeChar c = [backslash, e] ∧ c = ofShort e) ∨
      (c ≠ backslash ∧ c ≠ doubleQuote ∧ escapeChar c = [c]) ∨
        escapeChar c = unicodeEscape c.toNat := by
  unfold escapeChar
  split
  · next h =>
    refine .inl ⟨c, ?_, rfl, ?_⟩
    · rintro rfl; revert h; decide
    · have hc : c = doubleQuote ∨ c = backslash := by simpa using h
      rcases hc with rfl | rfl <;> decide
  split
  · next h => exact .inl ⟨'n', by decide, rfl, h⟩
  split
  · next h => exact .inl ⟨'r', by decide, rfl, h⟩
  split
  · next h => exact .inl ⟨'t', by decide, rfl, h⟩
  split
  · next h => exact .inl ⟨'f', by decide, rfl, h⟩
  split
  · next h => exact .inl ⟨'b', by decide, rfl, h⟩
  split
  · next h _ _ _ _ _ _ =>
    have hc : c ≠ doubleQuote ∧ c ≠ backslash := by simpa using h
    exact .inr (.inl ⟨hc.2, hc.1, rfl⟩)
  · exact .inr (.inr rfl)

/-- A unit is written by a short escape, as the character that it is, or by its number. -/
theorem escapePoint_cases (hp : p.toNat < 0x10000) :
    (∃ e, e ≠ 'u' ∧ escapePoint p = [backslash, e] ∧ p = .char (ofShort e)) ∨
      (∃ c, c ≠ backslash ∧ c ≠ doubleQuote ∧ escapePoint p = [c] ∧ p = .char c) ∨
        escapePoint p = unitEscape p.toNat := by
  cases p with
  | surrogate n => exact .inr (.inr rfl)
  | char c =>
    rcases escapeChar_cases c with ⟨e, hu, hc, hce⟩ | ⟨hcb, hcq, hc⟩ | hc
    · exact .inl ⟨e, hu, hc, congrArg _ hce⟩
    · exact .inr (.inl ⟨c, hcb, hcq, hc, rfl⟩)
    · exact .inr (.inr (hc.trans (if_pos hp)))

theorem escapePoint_append_inj (hp : p.toNat < 0x10000) (hq : q.toNat < 0x10000)
    (h : escapePoint p ++ r = escapePoint q ++ s) : p = q ∧ r = s := by
  rcases escapePoint_cases hp with ⟨e, hu, he, hpe⟩ | ⟨c, hcb, -, hc, hpc⟩ | hunit <;>
    rcases escapePoint_cases hq with ⟨e', hu', he', hqe⟩ | ⟨d, hdb, -, hd, hqd⟩ | hunit'
  · rw [he, he'] at h
    obtain ⟨rfl, hrs⟩ := List.cons.inj (List.cons.inj h).2
    exact ⟨hpe.trans hqe.symm, hrs⟩
  · rw [he, hd] at h
    exact absurd (List.cons.inj h).1.symm hdb
  · rw [he, hunit'] at h
    exact absurd (List.cons.inj (List.cons.inj h).2).1 hu
  · rw [hc, he'] at h
    exact absurd (List.cons.inj h).1 hcb
  · rw [hc, hd] at h
    obtain ⟨rfl, hrs⟩ := List.cons.inj h
    exact ⟨hpc.trans hqd.symm, hrs⟩
  · rw [hc, hunit'] at h
    exact absurd (List.cons.inj h).1 hcb
  · rw [hunit, he'] at h
    exact absurd (List.cons.inj (List.cons.inj h).2).1.symm hu'
  · rw [hunit, hd] at h
    exact absurd (List.cons.inj h).1.symm hdb
  · rw [hunit, hunit'] at h
    obtain ⟨hpq, hrs⟩ := unitEscape_append_inj hp hq h
    exact ⟨CodePoint.toNat_inj hpq, hrs⟩

/-- No escape begins with the quote that ends a text. -/
theorem escapePoint_ne_quote (hp : p.toNat < 0x10000) : escapePoint p ++ r ≠ doubleQuote :: s := by
  intro h
  rcases escapePoint_cases hp with ⟨e, -, he, -⟩ | ⟨c, -, hcq, hc, -⟩ | hunit
  · rw [he] at h
    exact absurd (List.cons.inj h).1 (by decide)
  · rw [hc] at h
    exact absurd (List.cons.inj h).1 hcq
  · rw [hunit] at h
    exact absurd (List.cons.inj h).1 (by decide)

/-- A character is written as its halves are. -/
theorem flatMap_escapePoint_halves (p : CodePoint) :
    p.halves.flatMap escapePoint = escapePoint p := by
  by_cases hp : p.toNat < 0x10000
  · rw [CodePoint.halves_of_lt hp, List.flatMap_singleton]
  cases p with
  | surrogate n => exact List.flatMap_singleton _ _
  | char c =>
    have hlarge : 0x10000 ≤ c.toNat := Nat.le_of_not_lt hp
    have hpair : ¬ c.toNat < 0x10000 := hp
    have hne : ∀ d : Char, d.toNat < 0x10000 → c ≠ d := by
      rintro d hd rfl
      exact hpair hd
    have hplain : escapeChar c = unicodeEscape c.toNat := by
      simp [escapeChar, hne doubleQuote (by decide), hne backslash (by decide),
        hne '\n' (by decide), hne '\r' (by decide), hne '\t' (by decide),
        hne '\x0c' (by decide), hne '\x08' (by decide)]
      omega
    show (CodePoint.char c).halves.flatMap escapePoint = escapeChar c
    rw [hplain, unicodeEscape, if_neg hpair, CodePoint.halves, if_neg hpair, List.flatMap_cons,
      List.flatMap_singleton]
    show unitEscape (CodePoint.highHalf c).toNat ++ unitEscape (CodePoint.lowHalf c).toNat = _
    rw [CodePoint.toNat_highHalf, CodePoint.toNat_lowHalf]

theorem quoted_halved (a : Text) : quoted (halved a) = quoted a := by
  have hpoints : (halved a).flatMap escapePoint = a.flatMap escapePoint := by
    rw [halved, List.flatMap_assoc]
    exact congrArg (a.flatMap ·) (funext flatMap_escapePoint_halves)
  rw [quoted, quoted, hpoints]

theorem quoted_append_inj {a b : Text} (h : quoted a ++ r = quoted b ++ s) :
    halved a = halved b ∧ r = s := by
  rw [← quoted_halved a, ← quoted_halved b] at h
  unfold quoted at h
  simp only [List.cons_append, List.append_assoc, List.nil_append] at h
  have hlt : ∀ {t : Text}, ∀ p ∈ halved t, p.toNat < 0x10000 := fun _ => Text.toNat_lt_of_mem_halved
  obtain ⟨hab, hrs⟩ := Text.flatMap_append_inj
    (fun p hp q hq _ _ => escapePoint_append_inj (hlt p hp) (hlt q hq))
    (fun p hp _ => escapePoint_ne_quote (hlt p hp)) (fun p hp _ => escapePoint_ne_quote (hlt p hp))
    (List.cons.inj h).2
  exact ⟨hab, (List.cons.inj hrs).2⟩

/-! ### Values -/

mutual

/-- Whether each part that has no parts of its own has a property. -/
def allLeaves (ok : Json → Bool) : Json → Bool
  | array js => allLeavesItems ok js
  | object ms => allLeavesMembers ok ms
  | j => ok j
termination_by structural j => j

def allLeavesItems (ok : Json → Bool) : List Json → Bool
  | [] => true
  | j :: js => j.allLeaves ok && allLeavesItems ok js
termination_by structural js => js

def allLeavesMembers (ok : Json → Bool) : List (Text × Json) → Bool
  | [] => true
  | (_, j) :: ms => j.allLeaves ok && allLeavesMembers ok ms
termination_by structural ms => ms

end

mutual

theorem allLeaves_imp {ok ok' : Json → Bool} (himp : ∀ j, ok j = true → ok' j = true) :
    ∀ j : Json, j.allLeaves ok = true → j.allLeaves ok' = true
  | array js, h => allLeavesItems_imp himp js h
  | object ms, h => allLeavesMembers_imp himp ms h
  | null, h | bool _, h | int _, h | real _, h | text _, h | foreign, h => himp _ h
termination_by structural j => j

theorem allLeavesItems_imp {ok ok' : Json → Bool} (himp : ∀ j, ok j = true → ok' j = true) :
    ∀ js : List Json, allLeavesItems ok js = true → allLeavesItems ok' js = true
  | [], h => rfl
  | j :: js, h => by
    rw [allLeavesItems, Bool.and_eq_true] at h ⊢
    exact ⟨allLeaves_imp himp j h.1, allLeavesItems_imp himp js h.2⟩
termination_by structural js => js

theorem allLeavesMembers_imp {ok ok' : Json → Bool} (himp : ∀ j, ok j = true → ok' j = true) :
    ∀ ms : List (Text × Json), allLeavesMembers ok ms = true → allLeavesMembers ok' ms = true
  | [], h => rfl
  | (name, j) :: ms, h => by
    rw [allLeavesMembers, Bool.and_eq_true] at h ⊢
    exact ⟨allLeaves_imp himp j h.1, allLeavesMembers_imp himp ms h.2⟩
termination_by structural ms => ms

end

/-- Not what JSON has no form for. -/
def isNative : Json → Bool
  | foreign => false
  | _ => true

/-- No integer with too many digits. -/
def isShort : Json → Bool
  | int n => Text.isWritable n
  | _ => true

/-- What can be told from others by its text, where it has one. -/
def isPlain : Json → Bool
  | real _ | foreign => false
  | _ => true

mutual

/-- The text of a value, however long its integers are; what JSON has no form for has none. -/
def layout : Json → List Char
  | null => "null".toList
  | bool true => "true".toList
  | bool false => "false".toList
  | int n => Text.signed n
  | real x => realLayout.write x
  | text s => quoted s
  | array js => '[' :: layoutItems js ++ [']']
  | object ms => '\x7b' :: layoutMembers ms ++ ['\x7d']
  | foreign => []
termination_by structural j => j

def layoutItems : List Json → List Char
  | [] => []
  | [j] => j.layout
  | j :: js => j.layout ++ ',' :: layoutItems js
termination_by structural js => js

def layoutMembers : List (Text × Json) → List Char
  | [] => []
  | [(name, j)] => quoted name ++ ':' :: j.layout
  | (name, j) :: ms => quoted name ++ ':' :: j.layout ++ ',' :: layoutMembers ms
termination_by structural ms => ms

end

mutual

/-- The value with the halves of characters in their place. -/
def withHalves : Json → Json
  | text s => text (halved s)
  | array js => array (itemsWithHalves js)
  | object ms => object (membersWithHalves ms)
  | j => j
termination_by structural j => j

def itemsWithHalves : List Json → List Json
  | [] => []
  | j :: js => j.withHalves :: itemsWithHalves js
termination_by structural js => js

def membersWithHalves : List (Text × Json) → List (Text × Json)
  | [] => []
  | (name, j) :: ms => (halved name, j.withHalves) :: membersWithHalves ms
termination_by structural ms => ms

end

variable {cs : List Char} {fault : Fault}

/-- How printing can end: with the text, where nothing stands in its way, or with the fault of a
part that does. -/
inductive Prints : Bool → Bool → Except Fault (List Char) → List Char → Prop
  | text (cs : List Char) : Prints true true (.ok cs) cs
  | long (native : Bool) (cs : List Char) : Prints false native (.error .badValue) cs
  | foreign (short : Bool) (cs : List Char) : Prints short false (.error .wrongType) cs

variable {cs ds : List Char} {x y : Except Fault (List Char)} {short native short' native' : Bool}
  {fault : Fault}

theorem Prints.map (h : Prints short native x cs) (f : List Char → List Char) :
    Prints short native (x >>= fun a => pure (f a)) (f cs) := by
  cases h with
  | text => exact .text _
  | long => exact .long _ _
  | foreign => exact .foreign _ _

theorem Prints.bind (hx : Prints short native x cs) (hy : Prints short' native' y ds)
    (f : List Char → List Char → List Char) :
    Prints (short && short') (native && native') (x >>= fun a => y >>= fun b => pure (f a b))
      (f cs ds) := by
  cases hx with
  | text => exact hy.map (f cs)
  | long => exact .long _ _
  | foreign => rw [Bool.false_and]; exact .foreign _ _

theorem prints_writeInt (n : Int) :
    Prints (Text.isWritable n) true (Value.writeInt n) (Text.signed n) := by
  unfold Value.writeInt
  cases Text.isWritable n with
  | true => exact .text _
  | false => exact .long _ _

mutual

theorem prints_compact : ∀ j : Json,
    Prints (j.allLeaves isShort) (j.allLeaves isNative) j.compact j.layout
  | null | bool true | bool false | real _ | text _ => .text _
  | int n => prints_writeInt n
  | foreign => .foreign _ _
  | array js => (prints_compactItems js).map _
  | object ms => (prints_compactMembers ms).map _
termination_by structural j => j

theorem prints_compactItems : ∀ js : List Json,
    Prints (allLeavesItems isShort js) (allLeavesItems isNative js) (compactItems js)
      (layoutItems js)
  | [] => .text _
  | [j] => by
    simpa [allLeavesItems, compactItems, layoutItems] using prints_compact j
  | j :: k :: js => (prints_compact j).bind (prints_compactItems (k :: js)) _
termination_by structural js => js

theorem prints_compactMembers : ∀ ms : List (Text × Json),
    Prints (allLeavesMembers isShort ms) (allLeavesMembers isNative ms) (compactMembers ms)
      (layoutMembers ms)
  | [] => .text _
  | [(name, j)] => by
    simpa [allLeavesMembers, compactMembers, layoutMembers] using (prints_compact j).map _
  | (name, j) :: m :: ms => (prints_compact j).bind (prints_compactMembers (m :: ms)) _
termination_by structural ms => ms

end

variable {j a b : Json}

theorem compact_eq_ok_iff : j.compact = .ok cs ↔
    (j.allLeaves isShort = true ∧ j.allLeaves isNative = true) ∧ cs = j.layout := by
  have h := prints_compact j
  revert h
  generalize j.compact = x, j.allLeaves isShort = short, j.allLeaves isNative = native
  rintro ⟨⟩ <;> simp [eq_comm]

/-- What has no text for its kind aside, printing only fails for an integer with too many digits. -/
theorem discard_compact (hj : j.allLeaves isNative = true) :
    discard j.compact = failUnless (j.allLeaves isShort) .badValue := by
  have h := prints_compact j
  rw [hj] at h
  revert h
  generalize j.compact = x, j.allLeaves isShort = short
  rintro ⟨⟩ <;> rfl

/-- The character that a value begins with, unless it is a number. -/
def opening : Json → Option Char
  | null => some 'n'
  | bool true => some 't'
  | bool false => some 'f'
  | text _ => some doubleQuote
  | array _ => some '['
  | object _ => some '\x7b'
  | int _ | real _ | foreign => none

/-- The character that a value is recognised by: none for a digit or a sign. -/
def openingOf (c : Char) : Option Char :=
  if c.isDigit || c = '-' then none else some c

theorem exists_layout_eq_cons {j : Json} (h : j.allLeaves isPlain = true) :
    ∃ c cs, j.layout = c :: cs ∧ openingOf c = j.opening := by
  cases j with
  | null => exact ⟨_, _, by rw [layout]; rfl, rfl⟩
  | bool b => cases b <;> exact ⟨_, _, by rw [layout]; rfl, rfl⟩
  | int n =>
    rw [layout, Text.signed]
    split
    · exact ⟨_, _, rfl, rfl⟩
    · obtain ⟨c, cs, hc, hdigit⟩ := Text.exists_decimal_eq_cons n.natAbs
      exact ⟨c, cs, hc, by simp [openingOf, hdigit, opening]⟩
  | real x | foreign => exact nomatch h
  | text t => exact ⟨_, _, by rw [layout, quoted]; rfl, rfl⟩
  | array js => exact ⟨_, _, by rw [layout]; rfl, rfl⟩
  | object ms => exact ⟨_, _, by rw [layout]; rfl, rfl⟩

/-- Values whose texts begin alike are of one kind. -/
theorem opening_eq {a b : Json} (ha : a.allLeaves isPlain = true) (hb : b.allLeaves isPlain = true)
    (h : a.layout ++ r = b.layout ++ s) : a.opening = b.opening := by
  obtain ⟨c, cs, hc, hopen⟩ := exists_layout_eq_cons ha
  obtain ⟨d, ds, hd, hopen'⟩ := exists_layout_eq_cons hb
  rw [hc, hd] at h
  obtain ⟨rfl, -⟩ := List.cons.inj h
  exact hopen.symm.trans hopen'

/-- No value begins like the end of an array. -/
theorem layout_ne_bracket {j : Json} (hj : j.allLeaves isPlain = true) :
    j.layout ++ r ≠ ']' :: s := by
  obtain ⟨c, cs, hc, hopen⟩ := exists_layout_eq_cons hj
  rw [hc]
  intro h
  obtain ⟨rfl, -⟩ := List.cons.inj h
  cases j with
  | bool b => cases b <;> cases hopen
  | _ => cases hopen

/-- What comes after the first item of an array. -/
def afterItem : List Json → List Char → List Char
  | [], r => ']' :: r
  | js, r => ',' :: (layoutItems js ++ ']' :: r)

theorem layoutItems_cons (j : Json) (js : List Json) (r : List Char) :
    layoutItems (j :: js) ++ ']' :: r = j.layout ++ afterItem js r := by
  cases js <;> simp [layoutItems, afterItem]

theorem noDigit_afterItem (js : List Json) (r : List Char) : NoDigit (afterItem js r) := by
  cases js <;> exact noDigit_cons rfl _

/-- After the first item, arrays end alike or go on alike. -/
theorem afterItem_inj {js ks : List Json}
    (htail : layoutItems js ++ ']' :: r = layoutItems ks ++ ']' :: s →
      itemsWithHalves js = itemsWithHalves ks ∧ r = s)
    (h : afterItem js r = afterItem ks s) : itemsWithHalves js = itemsWithHalves ks ∧ r = s := by
  cases js with
  | nil => cases ks with
    | nil => exact ⟨rfl, (List.cons.inj h).2⟩
    | cons k ks => exact absurd (List.cons.inj h).1 (by decide)
  | cons j js => cases ks with
    | nil => exact absurd (List.cons.inj h).1 (by decide)
    | cons k ks => exact htail (List.cons.inj h).2

/-- What comes after the first member of an object. -/
def afterMember : List (Text × Json) → List Char → List Char
  | [], r => '\x7d' :: r
  | ms, r => ',' :: (layoutMembers ms ++ '\x7d' :: r)

theorem layoutMembers_cons (name : Text) (j : Json) (ms : List (Text × Json))
    (r : List Char) : layoutMembers ((name, j) :: ms) ++ '\x7d' :: r =
      quoted name ++ ':' :: (j.layout ++ afterMember ms r) := by
  cases ms <;> simp [layoutMembers, afterMember]

theorem noDigit_afterMember (ms : List (Text × Json)) (r : List Char) :
    NoDigit (afterMember ms r) := by
  cases ms <;> exact noDigit_cons rfl _

theorem afterMember_inj {ms ns : List (Text × Json)}
    (htail : layoutMembers ms ++ '\x7d' :: r = layoutMembers ns ++ '\x7d' :: s →
      membersWithHalves ms = membersWithHalves ns ∧ r = s)
    (h : afterMember ms r = afterMember ns s) :
    membersWithHalves ms = membersWithHalves ns ∧ r = s := by
  cases ms with
  | nil => cases ns with
    | nil => exact ⟨rfl, (List.cons.inj h).2⟩
    | cons n ns => exact absurd (List.cons.inj h).1 (by decide)
  | cons m ms => cases ns with
    | nil => exact absurd (List.cons.inj h).1 (by decide)
    | cons n ns => exact htail (List.cons.inj h).2

mutual

/-- A text is the text of one value only, but for the halves of characters, and ends where it
ends. -/
theorem layout_append_inj : ∀ (a : Json) {b : Json} {r s : List Char},
    a.allLeaves isPlain = true → b.allLeaves isPlain = true → NoDigit r → NoDigit s →
      a.layout ++ r = b.layout ++ s → a.withHalves = b.withHalves ∧ r = s
  | null, b, r, s, ha, hb, hr, hs, h => by
    have hopen := opening_eq ha hb h
    cases b with
    | null => exact ⟨rfl, List.append_cancel_left h⟩
    | bool b => cases b <;> cases hopen
    | foreign => cases hb
    | _ => cases hopen
  | bool a, b, r, s, ha, hb, hr, hs, h => by
    have hopen := opening_eq ha hb h
    cases b with
    | bool b =>
      obtain rfl : a = b := by cases a <;> cases b <;> first | rfl | cases hopen
      exact ⟨rfl, List.append_cancel_left h⟩
    | foreign => cases hb
    | _ => cases a <;> cases hopen
  | int m, b, r, s, ha, hb, hr, hs, h => by
    have hopen := opening_eq ha hb h
    cases b with
    | int n =>
      rw [layout, layout] at h
      obtain ⟨rfl, hrs⟩ := signed_append_inj hr hs h
      exact ⟨rfl, hrs⟩
    | real | foreign => cases hb
    | bool b => cases b <;> cases hopen
    | _ => cases hopen
  | real x, b, r, s, ha, hb, hr, hs, h => by cases ha
  | foreign, b, r, s, ha, hb, hr, hs, h => by cases ha
  | text t, b, r, s, ha, hb, hr, hs, h => by
    have hopen := opening_eq ha hb h
    cases b with
    | text u =>
      rw [layout, layout] at h
      obtain ⟨htu, hrs⟩ := quoted_append_inj h
      exact ⟨congrArg text htu, hrs⟩
    | bool b => cases b <;> cases hopen
    | foreign => cases hb
    | _ => cases hopen
  | array js, b, r, s, ha, hb, hr, hs, h => by
    have hopen := opening_eq ha hb h
    cases b with
    | array ks =>
      rw [layout, layout] at h
      simp only [List.cons_append, List.append_assoc, List.nil_append] at h
      obtain ⟨hjs, hrs⟩ := layoutItems_append_inj js ha hb (List.cons.inj h).2
      exact ⟨congrArg array hjs, hrs⟩
    | bool b => cases b <;> cases hopen
    | foreign => cases hb
    | _ => cases hopen
  | object ms, b, r, s, ha, hb, hr, hs, h => by
    have hopen := opening_eq ha hb h
    cases b with
    | object ns =>
      rw [layout, layout] at h
      simp only [List.cons_append, List.append_assoc, List.nil_append] at h
      obtain ⟨hms, hrs⟩ := layoutMembers_append_inj ms ha hb (List.cons.inj h).2
      exact ⟨congrArg object hms, hrs⟩
    | bool b => cases b <;> cases hopen
    | foreign => cases hb
    | _ => cases hopen
termination_by structural a => a

theorem layoutItems_append_inj : ∀ (js : List Json) {ks : List Json} {r s : List Char},
    allLeavesItems isPlain js = true → allLeavesItems isPlain ks = true →
      layoutItems js ++ ']' :: r = layoutItems ks ++ ']' :: s →
        itemsWithHalves js = itemsWithHalves ks ∧ r = s
  | [], [], r, s, hj, hk, h => ⟨rfl, (List.cons.inj h).2⟩
  | [], k :: ks, r, s, hj, hk, h => by
    rw [allLeavesItems, Bool.and_eq_true] at hk
    rw [layoutItems_cons] at h
    exact absurd h.symm (layout_ne_bracket hk.1)
  | j :: js, [], r, s, hj, hk, h => by
    rw [allLeavesItems, Bool.and_eq_true] at hj
    rw [layoutItems_cons] at h
    exact absurd h (layout_ne_bracket hj.1)
  | j :: js, k :: ks, r, s, hj, hk, h => by
    rw [allLeavesItems, Bool.and_eq_true] at hj hk
    rw [layoutItems_cons, layoutItems_cons] at h
    obtain ⟨hjk, hafter⟩ := layout_append_inj j hj.1 hk.1 (noDigit_afterItem js r)
      (noDigit_afterItem ks s) h
    obtain ⟨hjs, hrs⟩ := afterItem_inj (layoutItems_append_inj js hj.2 hk.2) hafter
    exact ⟨by rw [itemsWithHalves, itemsWithHalves, hjk, hjs], hrs⟩
termination_by structural js => js

theorem layoutMembers_append_inj : ∀ (ms : List (Text × Json)) {ns : List (Text × Json)}
    {r s : List Char}, allLeavesMembers isPlain ms = true → allLeavesMembers isPlain ns = true →
      layoutMembers ms ++ '\x7d' :: r = layoutMembers ns ++ '\x7d' :: s →
        membersWithHalves ms = membersWithHalves ns ∧ r = s
  | [], [], r, s, hm, hn, h => ⟨rfl, (List.cons.inj h).2⟩
  | [], (name, k) :: ns, r, s, hm, hn, h => by
    rw [layoutMembers_cons] at h
    exact absurd (List.cons.inj h).1 (by decide)
  | (name, j) :: ms, [], r, s, hm, hn, h => by
    rw [layoutMembers_cons] at h
    exact absurd (List.cons.inj h).1 (by decide)
  | (name, j) :: ms, (name', k) :: ns, r, s, hm, hn, h => by
    rw [allLeavesMembers, Bool.and_eq_true] at hm hn
    rw [layoutMembers_cons, layoutMembers_cons] at h
    obtain ⟨hname, hvalue⟩ := quoted_append_inj h
    obtain ⟨hjk, hafter⟩ := layout_append_inj j hm.1 hn.1 (noDigit_afterMember ms r)
      (noDigit_afterMember ns s) (List.cons.inj hvalue).2
    obtain ⟨hms, hrs⟩ := afterMember_inj (layoutMembers_append_inj ms hm.2 hn.2) hafter
    exact ⟨by rw [membersWithHalves, membersWithHalves, hname, hjk, hms], hrs⟩
termination_by structural ms => ms

end

mutual

theorem layout_withHalves : ∀ j : Json, j.withHalves.layout = j.layout
  | null | bool _ | int _ | real _ | foreign => rfl
  | text s => by rw [withHalves, layout, layout, quoted_halved]
  | array js => by rw [withHalves, layout, layout, layoutItems_withHalves js]
  | object ms => by rw [withHalves, layout, layout, layoutMembers_withHalves ms]
termination_by structural j => j

theorem layoutItems_withHalves : ∀ js : List Json, layoutItems (itemsWithHalves js) = layoutItems js
  | [] => rfl
  | [j] => layout_withHalves j
  | j :: k :: js => by
    show j.withHalves.layout ++ ',' :: layoutItems (itemsWithHalves (k :: js)) =
      j.layout ++ ',' :: layoutItems (k :: js)
    rw [layout_withHalves j, layoutItems_withHalves (k :: js)]
termination_by structural js => js

theorem layoutMembers_withHalves : ∀ ms : List (Text × Json),
    layoutMembers (membersWithHalves ms) = layoutMembers ms
  | [] => rfl
  | [(name, j)] => by
    rw [membersWithHalves, membersWithHalves, layoutMembers, layoutMembers, quoted_halved,
      layout_withHalves j]
  | (name, j) :: m :: ms => by
    show quoted (halved name) ++ ':' :: j.withHalves.layout ++
        ',' :: layoutMembers (membersWithHalves (m :: ms)) =
      quoted name ++ ':' :: j.layout ++ ',' :: layoutMembers (m :: ms)
    rw [quoted_halved, layout_withHalves j, layoutMembers_withHalves (m :: ms)]
termination_by structural ms => ms

end

/-- Values have one text exactly where they are the same but for the halves of characters. -/
theorem compact_eq_iff (ha : a.allLeaves isPlain = true) (hb : b.allLeaves isPlain = true)
    (hcs : a.compact = .ok cs) (hds : b.compact = .ok ds) :
    cs = ds ↔ a.withHalves = b.withHalves := by
  obtain ⟨-, rfl⟩ := compact_eq_ok_iff.mp hcs
  obtain ⟨-, rfl⟩ := compact_eq_ok_iff.mp hds
  constructor
  · intro h
    exact (layout_append_inj a ha hb noDigit_nil noDigit_nil (by rw [h])).1
  · intro h
    rw [← layout_withHalves a, h, layout_withHalves b]

end DocQuery.Json

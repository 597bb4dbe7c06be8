import DocQuery.Text.Basic

/-!
# The halves of characters

UTF-16 has a character from U+10000 on as two surrogates, its halves (`CodePoint.halves`). A text
with such a character and the text with the halves in its place are different texts with the same
units; `Text.halved` is the one that has halves only. Texts without surrogates are the same once
their halved forms are (`Text.halved_inj`).
-/

namespace DocQuery

namespace CodePoint

variable {p q : CodePoint} {c d : Char}

def highHalf (c : Char) : CodePoint :=
  surrogate (Fin.ofNat 0x800 ((c.toNat - 0x10000) / 0x400))

def lowHalf (c : Char) : CodePoint :=
  surrogate (Fin.ofNat 0x800 (0x400 + (c.toNat - 0x10000) % 0x400))

/-- The code points for the UTF-16 units of a code point. -/
def halves : CodePoint → List CodePoint
  | char c => if c.toNat < 0x10000 then [char c] else [highHalf c, lowHalf c]
  | surrogate n => [surrogate n]

theorem toNat_highHalf (c : Char) :
    (highHalf c).toNat = 0xD800 + (c.toNat - 0x10000) / 0x400 := by
  have hlt := (char c).toNat_lt
  have hc : (char c).toNat = c.toNat := rfl
  show 0xD800 + (c.toNat - 0x10000) / 0x400 % 0x800 = _
  omega

theorem toNat_lowHalf (c : Char) :
    (lowHalf c).toNat = 0xDC00 + (c.toNat - 0x10000) % 0x400 := by
  show 0xD800 + (0x400 + (c.toNat - 0x10000) % 0x400) % 0x800 = _
  omega

theorem halves_of_lt (h : p.toNat < 0x10000) : p.halves = [p] := by
  cases p with
  | char c => exact if_pos h
  | surrogate n => rfl

theorem toNat_lt_of_mem_halves (h : q ∈ p.halves) : q.toNat < 0x10000 := by
  cases p with
  | surrogate n =>
    obtain rfl := List.mem_singleton.mp h
    show 0xD800 + (n : Nat) < _
    omega
  | char c =>
    rw [halves] at h
    split at h
    · next hc => exact List.mem_singleton.mp h ▸ hc
    · have hlt := (char c).toNat_lt
      have hc : (char c).toNat = c.toNat := rfl
      rcases List.mem_cons.mp h with rfl | h
      · rw [toNat_highHalf]
        omega
      · rw [List.mem_singleton.mp h, toNat_lowHalf]
        omega

/-- A character can be told from its first half or, below U+10000, from itself. -/
theorem halves_char_append_inj {s t : List CodePoint}
    (h : (char c).halves ++ s = (char d).halves ++ t) : c = d ∧ s = t := by
  have hhalf : ∀ (e f : Char), char e ≠ highHalf f := fun e f => CodePoint.noConfusion
  rw [halves, halves] at h
  split at h <;> split at h
  · obtain ⟨hcd, hst⟩ := List.cons.inj h
    exact ⟨char_inj.mp hcd, hst⟩
  · exact absurd (List.cons.inj h).1 (hhalf _ _)
  · exact absurd (List.cons.inj h).1.symm (hhalf _ _)
  · obtain ⟨hhigh, h⟩ := List.cons.inj h
    obtain ⟨hlow, hst⟩ := List.cons.inj h
    have hhigh := congrArg toNat hhigh
    have hlow := congrArg toNat hlow
    rw [toNat_highHalf, toNat_highHalf] at hhigh
    rw [toNat_lowHalf, toNat_lowHalf] at hlow
    exact ⟨Char.toNat_inj.mp (by omega), hst⟩

end CodePoint

namespace Text

variable {s t : Text} {p : CodePoint}

/-- The text with the halves of a character from U+10000 on in its place. -/
def halved (s : Text) : Text :=
  s.flatMap CodePoint.halves

/-- Only characters. -/
def isWellFormed (s : Text) : Bool :=
  s.all (·.is fun _ => true)

theorem toNat_lt_of_mem_halved (h : p ∈ halved s) : p.toNat < 0x10000 := by
  obtain ⟨q, -, hp⟩ := List.mem_flatMap.mp h
  exact CodePoint.toNat_lt_of_mem_halves hp

theorem halved_of_lt (h : ∀ p ∈ s, p.toNat < 0x10000) : halved s = s := by
  have hself : s.flatMap CodePoint.halves = s.flatMap fun p => [p] :=
    congrArg List.flatten (List.map_congr_left fun p hp => CodePoint.halves_of_lt (h p hp))
  rw [halved, hself, List.flatMap_singleton']

theorem halved_halved (s : Text) : halved (halved s) = halved s :=
  halved_of_lt fun _ => toNat_lt_of_mem_halved

theorem exists_chars_of_isWellFormed (h : isWellFormed s = true) : ∃ cs, s = ofChars cs := by
  induction s with
  | nil => exact ⟨[], rfl⟩
  | cons p s ih =>
    rw [isWellFormed, List.all_cons, Bool.and_eq_true] at h
    obtain ⟨cs, rfl⟩ := ih h.2
    cases p with
    | char c => exact ⟨c :: cs, rfl⟩
    | surrogate n => exact nomatch h.1

theorem halved_ofChars_inj {cs ds : List Char} (h : halved (ofChars cs) = halved (ofChars ds)) :
    cs = ds := by
  have hne : ∀ (c : Char) (s : Text), halved (.char c :: s) ≠ [] := fun c s => by
    rw [halved, List.flatMap_cons, CodePoint.halves]
    split <;> exact List.cons_ne_nil _ _
  induction cs generalizing ds with
  | nil =>
    cases ds with
    | nil => rfl
    | cons d ds => exact absurd h.symm (hne d _)
  | cons c cs ih =>
    cases ds with
    | nil => exact absurd h (hne c _)
    | cons d ds =>
      obtain ⟨rfl, htail⟩ := CodePoint.halves_char_append_inj h
      rw [ih htail]

/-- A text without surrogates is the only such text with its units. -/
theorem halved_inj (hs : isWellFormed s = true) (ht : isWellFormed t = true)
    (h : halved s = halved t) : s = t := by
  obtain ⟨cs, rfl⟩ := exists_chars_of_isWellFormed hs
  obtain ⟨ds, rfl⟩ := exists_chars_of_isWellFormed ht
  rw [halved_ofChars_inj h]

end Text

end DocQuery

import DocQuery.Proofs.Text.Halves
import DocQuery.Proofs.Text.Numerals
import DocQuery.Text.Quoted

/-!
# Quoted text can be read back

A quoted text is the quoted form of one text only, also where more follows it: `quoted_append_inj`,
and `quotedOctets_append_inj` for octets. Both are read escape by escape, an `Escape` being how the
code point or octet of a number is written. Hence quoted texts that are cut off at one length can
still be told from what follows them (`take_quoted_append_inj`).
-/

namespace DocQuery.Text

variable {α : Type} {quote : Char} {m n : Nat} {a b : Text} {cs ds r s : List Char}

def IsQuote (c : Char) : Prop :=
  c = apostrophe ∨ c = doubleQuote

theorem isQuote_quoteFor (s : Text) : IsQuote (quoteFor s) := by
  unfold quoteFor
  split
  · exact .inr rfl
  · exact .inl rfl

/-- The character that a backslash and another character than `x`, `u` and `U` stand for. -/
def ofShort (e : Char) : Char :=
  if e = 't' then '\t' else if e = 'n' then '\n' else if e = 'r' then '\r' else e

/-- How what has the number `n` is written: by a backslash and a character, as the character that it
is, or by its number. -/
inductive Escape (quote : Char) (n : Nat) : List Char → Prop
  | short (e : Char) (he : e ∉ ['x', 'u', 'U']) (hn : n = (ofShort e).toNat) :
      Escape quote n [backslash, e]
  | plain (c : Char) (hc : c ≠ backslash) (hq : c ≠ quote) (hn : n = c.toNat) : Escape quote n [c]
  | numeric (hn : n < 16 ^ 8) : Escape quote n (numericEscape n)

/-- The width of the numeral after a letter. -/
def numericWidth (e : Char) : Nat :=
  if e = 'x' then 2 else if e = 'u' then 4 else 8

theorem exists_numericEscape_eq (n : Nat) : ∃ e ∈ ['x', 'u', 'U'],
    numericEscape n = backslash :: e :: hex (numericWidth e) n ∧
      (n < 16 ^ 8 → n < 16 ^ numericWidth e) := by
  unfold numericEscape
  split
  · next h => exact ⟨'x', by simp, rfl, fun _ => Nat.lt_succ_of_le h⟩
  split
  · next h => exact ⟨'u', by simp, rfl, fun _ => Nat.lt_succ_of_le h⟩
  · exact ⟨'U', by simp, rfl, id⟩

theorem numericEscape_append_inj (hm : m < 16 ^ 8) (hn : n < 16 ^ 8)
    (h : numericEscape m ++ r = numericEscape n ++ s) : m = n ∧ r = s := by
  obtain ⟨e, -, hme, hlt⟩ := exists_numericEscape_eq m
  obtain ⟨f, -, hnf, hlt'⟩ := exists_numericEscape_eq n
  rw [hme, hnf] at h
  obtain ⟨rfl, hdigits⟩ := List.cons.inj (List.cons.inj h).2
  obtain ⟨hmod, hrs⟩ := hex_append_inj hdigits
  rw [Nat.mod_eq_of_lt (hlt hm), Nat.mod_eq_of_lt (hlt' hn)] at hmod
  exact ⟨hmod, hrs⟩

/-- No escape goes on where another one has ended. -/
theorem Escape.append_inj (hm : Escape quote m cs) (hn : Escape quote n ds)
    (h : cs ++ r = ds ++ s) : m = n ∧ r = s := by
  obtain ⟨e₁, he₁, hcs₁, -⟩ := exists_numericEscape_eq m
  obtain ⟨e₂, he₂, hcs₂, -⟩ := exists_numericEscape_eq n
  cases hm with
  | short e he hm =>
    cases hn with
    | short e' he' hn =>
      obtain ⟨rfl, hrs⟩ := List.cons.inj (List.cons.inj h).2
      exact ⟨hm.trans hn.symm, hrs⟩
    | plain c hc hq hn => exact absurd (List.cons.inj h).1.symm hc
    | numeric hn =>
      rw [hcs₂] at h
      exact absurd ((List.cons.inj (List.cons.inj h).2).1 ▸ he₂) he
  | plain c hc hq hm =>
    cases hn with
    | short e' he' hn => exact absurd (List.cons.inj h).1 hc
    | plain c' hc' hq' hn =>
      obtain ⟨rfl, hrs⟩ := List.cons.inj h
      exact ⟨hm.trans hn.symm, hrs⟩
    | numeric hn =>
      rw [hcs₂] at h
      exact absurd (List.cons.inj h).1 hc
  | numeric hm =>
    cases hn with
    | short e' he' hn =>
      rw [hcs₁] at h
      exact absurd ((List.cons.inj (List.cons.inj h).2).1 ▸ he₁) he'
    | plain c' hc' hq' hn =>
      rw [hcs₁] at h
      exact absurd (List.cons.inj h).1.symm hc'
    | numeric hn => exact numericEscape_append_inj hm hn h

/-- No escape begins with the quote that ends a text. -/
theorem Escape.ne_quote (hquote : IsQuote quote) (h : Escape quote n cs) :
    cs ++ r ≠ quote :: s := by
  have hback : backslash ≠ quote := by rcases hquote with rfl | rfl <;> decide
  intro heq
  cases h with
  | short e he hn => exact hback (List.cons.inj heq).1
  | plain c hc hq hn => exact hq (List.cons.inj heq).1
  | numeric hn =>
    obtain ⟨e, -, hes, -⟩ := exists_numericEscape_eq n
    rw [hes] at heq
    exact hback (List.cons.inj heq).1

theorem escapes_append_inj {f : α → List Char} {number : α → Nat} (hquote : IsQuote quote)
    (hf : ∀ a, Escape quote (number a) (f a)) (hnumber : ∀ a b, number a = number b → a = b)
    {as bs : List α} (h : as.flatMap f ++ quote :: r = bs.flatMap f ++ quote :: s) :
    as = bs ∧ r = s := by
  have hparts : ∀ a ∈ as, ∀ b ∈ bs, ∀ r s, f a ++ r = f b ++ s → a = b ∧ r = s :=
    fun a _ b _ r s h => ((hf a).append_inj (hf b) h).imp_left (hnumber a b)
  have hends : ∀ (s : List Char) (a : α) (t : List Char), f a ++ t ≠ quote :: s := fun s a t =>
    (hf a).ne_quote hquote
  exact (flatMap_append_inj hparts (fun b _ => hends r b) (fun a _ => hends s a) h).imp_right
    fun h => (List.cons.inj h).2

theorem escape_escapeChar (hquote : IsQuote quote) (c : Char) :
    Escape quote c.toNat (escapeChar quote c) := by
  unfold escapeChar
  split
  · next h =>
    have hc : c = quote ∨ c = backslash := by simpa using h
    have hself : c ∉ ['x', 'u', 'U'] ∧ ofShort c = c := by
      rcases hc with rfl | rfl
      · rcases hquote with rfl | rfl <;> decide
      · decide
    exact .short c hself.1 (by rw [hself.2])
  split
  · next h => exact .short 't' (by decide) (by rw [h]; rfl)
  split
  · next h => exact .short 'n' (by decide) (by rw [h]; rfl)
  split
  · next h => exact .short 'r' (by decide) (by rw [h]; rfl)
  split
  · next h _ _ _ _ =>
    have hc : c ≠ quote ∧ c ≠ backslash := by simpa using h
    exact .plain c hc.2 hc.1 rfl
  · have hvalid : c.toNat < 0xD800 ∨ 0xDFFF < c.toNat ∧ c.toNat < 0x110000 := c.valid
    exact .numeric (by omega)

theorem escape_escapePoint (hquote : IsQuote quote) (p : CodePoint) :
    Escape quote p.toNat (escapePoint quote p) := by
  cases p with
  | char c => exact escape_escapeChar hquote c
  | surrogate n => exact .numeric (Nat.lt_trans (CodePoint.toNat_lt _) (by decide))

/-- An octet that is written like a character has its number. -/
theorem toNat_octetChar {o : UInt8} (h : o < 0x7F) : (octetChar o).toNat = o.toNat := by
  have hall : ∀ n < 0x7F, (Char.ofNat n).toNat = n := by decide
  exact hall o.toNat (UInt8.lt_iff_toNat_lt.mp h)

theorem escape_escapeOctet (hquote : IsQuote quote) (o : UInt8) :
    Escape quote o.toNat (escapeOctet quote o) := by
  unfold escapeOctet
  split
  · next h =>
    rw [← toNat_octetChar h]
    exact escape_escapeChar hquote _
  · exact .numeric (by have := o.toNat_lt; omega)

theorem quoted_append_inj (h : quoted a ++ r = quoted b ++ s) : a = b ∧ r = s := by
  unfold quoted at h
  simp only [List.cons_append, List.append_assoc, List.nil_append] at h
  obtain ⟨hquote, h⟩ := List.cons.inj h
  rw [← hquote] at h
  exact escapes_append_inj (isQuote_quoteFor a) (escape_escapePoint (isQuote_quoteFor a))
    (fun _ _ => CodePoint.toNat_inj) h

theorem quotedOctets_append_inj {os ps : List UInt8}
    (h : quotedOctets os ++ r = quotedOctets ps ++ s) : os = ps ∧ r = s := by
  unfold quotedOctets at h
  simp only [List.cons_append, List.append_assoc, List.nil_append] at h
  obtain ⟨hquote, h⟩ := List.cons.inj (List.cons.inj h).2
  rw [← hquote] at h
  exact escapes_append_inj (isQuote_quoteFor _) (escape_escapeOctet (isQuote_quoteFor _))
    (fun _ _ => UInt8.toNat_inj.mp) h

theorem quotedOctets_inj {os ps : List UInt8} (h : quotedOctets os = quotedOctets ps) : os = ps :=
  (quotedOctets_append_inj (congrArg (· ++ []) h)).1

/-- Between apostrophes stands the text itself where no character of it is escaped. -/
theorem quoted_of_plain (h : ∀ c ∈ cs, escapeChar apostrophe c = [c]) :
    quoted (ofChars cs) = apostrophe :: cs ++ [apostrophe] := by
  have hnone : apostrophe ∉ cs := fun hmem => absurd (h _ hmem) (by decide)
  have hquote : quoteFor (ofChars cs) = apostrophe := by simp [quoteFor, ofChars, hnone]
  have hplain : (ofChars cs).flatMap (escapePoint apostrophe) = cs.flatMap fun c => [c] :=
    (List.flatMap_map _ _ _).trans (congrArg List.flatten (List.map_congr_left h))
  rw [quoted, hquote, hplain, List.flatMap_singleton']

/-- A quoted text is not the beginning of another one. -/
theorem eq_of_quoted_prefix (h : quoted a <+: quoted b) : a = b := by
  obtain ⟨t, ht⟩ := h
  exact (quoted_append_inj (s := []) (by rw [ht, List.append_nil])).1

theorem take_quoted_eq_iff (h : (quoted a).length ≤ n) :
    (quoted a).take n = (quoted b).take n ↔ a = b := by
  refine ⟨fun heq => eq_of_quoted_prefix ?_, fun hab => by rw [hab]⟩
  rw [← List.take_of_length_le h, heq]
  exact List.take_prefix _ _

theorem length_take_quoted_le (h : (quoted a).take n ++ r = (quoted b).take n ++ s) :
    ((quoted b).take n).length ≤ ((quoted a).take n).length := by
  refine Nat.le_of_not_lt fun hlt => ?_
  have hshort : (quoted a).length ≤ n := by
    simp only [List.length_take] at hlt
    omega
  have hbegins : (quoted a).take n <+: (quoted b).take n :=
    List.prefix_of_prefix_length_le ⟨r, h⟩ ⟨s, rfl⟩ (Nat.le_of_lt hlt)
  rw [List.take_of_length_le hshort] at hbegins hlt
  obtain rfl := eq_of_quoted_prefix (hbegins.trans (List.take_prefix _ _))
  rw [List.take_of_length_le hshort] at hlt
  exact Nat.lt_irrefl _ hlt

/-- Quoted texts of which no more than `n` characters are shown end where they end. -/
theorem take_quoted_append_inj (h : (quoted a).take n ++ r = (quoted b).take n ++ s) :
    (quoted a).take n = (quoted b).take n ∧ r = s :=
  List.append_inj h (Nat.le_antisymm (length_take_quoted_le h.symm) (length_take_quoted_le h))

end DocQuery.Text

import Mathlib.Data.List.Forall2
import DocQuery.Proofs.Pattern.Reading

/-!
# What wildcard patterns match

A text `Fits` tokens where it has any text in the place of each open sign and its own character in
the place of each other token. The regular expression of tokens matches the texts of which a part
fits them, the part being next to each anchor (`occurs_ofTokens_iff`). So a wildcard pattern matches
what fits its tokens, and the percent signs are all open exactly where no two stand next to each
other: `like_wildcards`.
-/

namespace DocQuery.Pattern

open Text (backslash)

/-- A match of the regular expression starts somewhere in the text. -/
def Regular.Occurs (r : Regular) (cs : Text) : Prop :=
  ∃ before after, cs = before ++ after ∧ ∃ e, e ∈ r.ends { before := before.reverse, after }

/-- The text matches with some of its characters read as others, where `same d c` says that `d` can
be read as `c`. As no set in a regular expression of tokens leaves a character out, this is matching
without regard to case. -/
def Regular.OccursUpTo (same : CodePoint → CodePoint → Prop) (r : Regular) (cs : Text) : Prop :=
  ∃ ds, List.Forall₂ same cs ds ∧ r.Occurs ds

/-- The text has any text in the place of an open sign, and a character that can be read as its own
in the place of another token. -/
inductive Fits (same : CodePoint → CodePoint → Prop) : List Token → Text → Prop
  | nil : Fits same [] []
  | any {ts : List Token} {cs : Text} (ds : Text) (h : Fits same ts cs) :
      Fits same (.any :: ts) (ds ++ cs)
  | char {c d : CodePoint} {ts : List Token} {cs : Text} (hd : same d c) (h : Fits same ts cs) :
      Fits same (.char c :: ts) (d :: cs)

/-- The flag under which a regular expression matches without regard to case. -/
def ignoreCaseBit : Nat := 2

/-- The second spot lies after the given text from the first one. -/
structure Spot.Passes (s : Spot) (cs : Text) (e : Spot) : Prop where
  after_eq : s.after = cs ++ e.after
  before_eq : e.before = cs.reverse ++ s.before
  groups_eq : e.groups = s.groups

variable {c d : CodePoint} {cs ds : Text} {s e : Spot} {ts : List Token} {rs : List Regular}
  {start stop : Bool}

@[simp]
theorem Spot.passes_nil_iff : s.Passes [] e ↔ e = s := by
  constructor
  · rintro ⟨hafter, hbefore, hgroups⟩
    cases s; cases e
    simp_all
  · rintro rfl
    exact ⟨rfl, rfl, rfl⟩

theorem Spot.passes_append_iff :
    s.Passes (cs ++ ds) e ↔ ∃ t, s.Passes cs t ∧ t.Passes ds e := by
  constructor
  · rintro ⟨hafter, hbefore, hgroups⟩
    refine ⟨⟨cs.reverse ++ s.before, ds ++ e.after, s.groups⟩, ⟨?_, rfl, rfl⟩, ⟨rfl, ?_, hgroups⟩⟩
    · rw [hafter, List.append_assoc]
    · rw [hbefore, List.reverse_append, List.append_assoc]
  · rintro ⟨t, ht, he⟩
    refine ⟨?_, ?_, he.groups_eq.trans ht.groups_eq⟩
    · rw [ht.after_eq, he.after_eq, List.append_assoc]
    · rw [he.before_eq, ht.before_eq, List.reverse_append, List.append_assoc]

theorem Spot.mem_next_iff {set : CharSet} :
    e ∈ s.next set ↔ ∃ c, set.has c = true ∧ s.Passes [c] e := by
  unfold Spot.next
  constructor
  · intro h
    split at h
    · exact absurd h List.not_mem_nil
    · next c rest hafter =>
      split at h
      · next hc =>
        obtain rfl := List.mem_singleton.mp h
        exact ⟨c, hc, hafter, rfl, rfl⟩
      · exact absurd h List.not_mem_nil
  · rintro ⟨c, hc, hafter, hbefore, hgroups⟩
    rw [hafter]
    simp only [List.singleton_append, hc, if_true, List.mem_singleton]
    cases e
    simp_all

theorem CharSet.has_every (c : CodePoint) : CharSet.every.has c = true := by
  have hlt := c.toNat_lt
  simp only [every, has, Nat.zero_le, decide_true, Bool.true_and, decide_eq_true_eq]
  omega

theorem CharSet.has_one_iff : (CharSet.one c.toNat).has d = true ↔ d = c := by
  simp only [one, has, Bool.and_eq_true, decide_eq_true_eq]
  constructor
  · intro h
    exact CodePoint.toNat_inj (by omega)
  · rintro rfl
    exact ⟨Nat.le_refl _, Nat.le_refl _⟩

/-- A greedy repetition of all characters can end after any text. By induction on the bound, which
the length of what is left stays below. -/
theorem mem_upToTimes_every_iff {n : Nat} {last : Option Nat} (hn : s.after.length < n)
    (hlast : last ≠ some s.after.length) :
    e ∈ upToTimes (·.next .every) true n last s ↔ ∃ cs, s.Passes cs e := by
  induction n generalizing s last with
  | zero => exact absurd hn (Nat.not_lt_zero _)
  | succ n ih =>
    have hfurther : ∀ c t, s.Passes [c] t →
        (e ∈ upToTimes (·.next .every) true n (some s.after.length) t ↔ ∃ cs, t.Passes cs e) := by
      intro c t ht
      have hlen : s.after.length = t.after.length + 1 := by rw [ht.after_eq]; simp
      exact ih (by omega) fun h => by simp [hlen] at h
    rw [upToTimes, if_neg hlast]
    simp only [if_true, List.mem_append, List.mem_flatMap, List.mem_singleton]
    constructor
    · rintro (⟨t, ht, he⟩ | rfl)
      · obtain ⟨c, -, hpass⟩ := Spot.mem_next_iff.mp ht
        obtain ⟨cs, hcs⟩ := (hfurther c t hpass).mp he
        exact ⟨[c] ++ cs, Spot.passes_append_iff.mpr ⟨t, hpass, hcs⟩⟩
      · exact ⟨[], Spot.passes_nil_iff.mpr rfl⟩
    · rintro ⟨cs, hcs⟩
      cases cs with
      | nil => exact .inr (Spot.passes_nil_iff.mp hcs)
      | cons c cs =>
        have hcs : s.Passes ([c] ++ cs) e := hcs
        obtain ⟨t, hpass, hrest⟩ := Spot.passes_append_iff.mp hcs
        exact .inl ⟨t, Spot.mem_next_iff.mpr ⟨c, CharSet.has_every c, hpass⟩,
          (hfurther c t hpass).mpr ⟨cs, hrest⟩⟩

theorem Regular.mem_ends_any_iff : e ∈ (Token.any).regular.ends s ↔ ∃ cs, s.Passes cs e := by
  have hends : (Token.any).regular.ends s =
      upToTimes (·.next .every) true (s.after.length + 1) none s := by
    simp [Token.regular, Regular.ends, repeats, times]
  rw [hends]
  exact mem_upToTimes_every_iff (Nat.lt_succ_self _) (Option.some_ne_none _).symm

theorem Regular.mem_ends_char_iff : e ∈ (Token.char c).regular.ends s ↔ s.Passes [c] e := by
  show e ∈ s.next (.one c.toNat) ↔ _
  simp only [Spot.mem_next_iff, CharSet.has_one_iff, exists_eq_left]

@[simp]
theorem fits_nil_iff {same : CodePoint → CodePoint → Prop} : Fits same [] cs ↔ cs = [] := by
  constructor
  · rintro ⟨⟩; rfl
  · rintro rfl; exact .nil

theorem fits_cons_iff {same : CodePoint → CodePoint → Prop} {a : Token} :
    Fits same (a :: ts) cs ↔
      ∃ ds es, cs = ds ++ es ∧ Fits same [a] ds ∧ Fits same ts es := by
  constructor
  · intro h
    cases h with
    | any ds h => exact ⟨ds, _, rfl, by simpa using Fits.any ds .nil, h⟩
    | char hd h => exact ⟨[_], _, rfl, .char hd .nil, h⟩
  · rintro ⟨ds, es, rfl, ha, h⟩
    cases ha with
    | any ds hnil =>
      obtain rfl := fits_nil_iff.mp hnil
      rw [List.append_nil]
      exact .any ds h
    | char hd hnil =>
      obtain rfl := fits_nil_iff.mp hnil
      exact .char hd h

theorem Regular.mem_ends_regular_iff {a : Token} :
    e ∈ a.regular.ends s ↔ ∃ cs, Fits (· = ·) [a] cs ∧ s.Passes cs e := by
  cases a with
  | any =>
    rw [mem_ends_any_iff]
    refine exists_congr fun cs => (and_iff_right ?_).symm
    simpa using Fits.any cs .nil
  | char c =>
    rw [mem_ends_char_iff]
    constructor
    · exact fun h => ⟨[c], .char rfl .nil, h⟩
    · rintro ⟨cs, hcs, h⟩
      cases hcs with
      | char hd hnil =>
        obtain rfl := fits_nil_iff.mp hnil
        exact hd ▸ h

theorem Regular.sequence_cons (r : Regular) (rs : List Regular) :
    sequence (r :: rs) = .seq r (sequence rs) := rfl

theorem Regular.mem_ends_tokens_iff :
    e ∈ (sequence (ts.map Token.regular ++ rs)).ends s ↔
      ∃ cs t, Fits (· = ·) ts cs ∧ s.Passes cs t ∧ e ∈ (sequence rs).ends t := by
  induction ts generalizing s with
  | nil =>
    simp only [fits_nil_iff, List.map_nil, List.nil_append]
    constructor
    · exact fun h => ⟨[], s, rfl, Spot.passes_nil_iff.mpr rfl, h⟩
    · rintro ⟨_, t, rfl, ht, h⟩
      obtain rfl := Spot.passes_nil_iff.mp ht
      exact h
  | cons a ts ih =>
    rw [List.map_cons, List.cons_append, sequence_cons, ends, List.mem_flatMap]
    simp only [mem_ends_regular_iff, ih]
    constructor
    · rintro ⟨t, ⟨ds, ha, hst⟩, es, u, hts, htu, he⟩
      exact ⟨ds ++ es, u, fits_cons_iff.mpr ⟨ds, es, rfl, ha, hts⟩,
        Spot.passes_append_iff.mpr ⟨t, hst, htu⟩, he⟩
    · rintro ⟨cs, u, hfits, hsu, he⟩
      obtain ⟨ds, es, rfl, ha, hts⟩ := fits_cons_iff.mp hfits
      obtain ⟨t, hst, htu⟩ := Spot.passes_append_iff.mp hsu
      exact ⟨t, ⟨ds, ha, hst⟩, es, u, hts, htu, he⟩

theorem Regular.mem_ends_start_iff :
    e ∈ (sequence ((if start then [.textStart] else []) ++ rs)).ends s ↔
      (start = true → s.before = []) ∧ e ∈ (sequence rs).ends s := by
  cases start with
  | false => simp
  | true =>
    simp only [if_true, List.singleton_append, sequence_cons, ends, List.isEmpty_iff, forall_const]
    split <;> simp [*]

theorem Regular.mem_ends_stop_iff :
    e ∈ (sequence (if stop then [.textEnd] else [])).ends s ↔
      (stop = true → s.after = []) ∧ e = s := by
  cases stop with
  | false => simp [sequence, ends]
  | true =>
    simp only [if_true, sequence, List.foldr, ends, List.isEmpty_iff, forall_const]
    split <;> simp [*]

/-- A part of the text fits the tokens, and the part is next to each anchor. -/
def FitsPart (same : CodePoint → CodePoint → Prop) (start : Bool) (ts : List Token) (stop : Bool)
    (cs : Text) : Prop :=
  ∃ before part after, cs = before ++ (part ++ after) ∧ Fits same ts part ∧
    (start = true → before = []) ∧ (stop = true → after = [])

theorem Regular.occurs_ofTokens_iff :
    (ofTokens start ts stop).Occurs cs ↔ FitsPart (· = ·) start ts stop cs := by
  have hends : ∀ before after,
      (∃ e, e ∈ (ofTokens start ts stop).ends ⟨before.reverse, after, []⟩) ↔
        ∃ part rest, after = part ++ rest ∧ Fits (· = ·) ts part ∧
          (start = true → before = []) ∧ (stop = true → rest = []) := by
    intro before after
    rw [ofTokens, anchoredItems]
    simp only [List.append_assoc, mem_ends_start_iff, mem_ends_tokens_iff, mem_ends_stop_iff,
      List.reverse_eq_nil_iff]
    constructor
    · rintro ⟨e, hstart, part, t, hfits, hpass, hstop, rfl⟩
      exact ⟨part, e.after, hpass.after_eq, hfits, hstart, hstop⟩
    · rintro ⟨part, rest, rfl, hfits, hstart, hstop⟩
      let e : Spot := ⟨part.reverse ++ before.reverse, rest, []⟩
      exact ⟨e, hstart, part, e, hfits, ⟨rfl, rfl, rfl⟩, hstop, rfl⟩
  unfold Occurs FitsPart
  simp only [hends]
  constructor
  · rintro ⟨before, _, rfl, part, rest, rfl, h⟩
    exact ⟨before, part, rest, rfl, h⟩
  · rintro ⟨before, part, rest, rfl, h⟩
    exact ⟨before, _, rfl, part, rest, rfl, h⟩

/-! ### Matching up to case -/

variable {same : CodePoint → CodePoint → Prop}

theorem Fits.of_forall₂ (h : Fits (· = ·) ts ds) (hcs : List.Forall₂ same cs ds) :
    Fits same ts cs := by
  induction h generalizing cs with
  | nil =>
    obtain rfl := List.forall₂_nil_right_iff.mp hcs
    exact .nil
  | any es _ ih =>
    rw [← List.take_append_drop es.length cs]
    exact .any _ (ih (List.forall₂_drop_append cs es _ hcs))
  | char hd _ ih =>
    subst hd
    obtain ⟨c, rest, hc, hrest, rfl⟩ := List.forall₂_cons_right_iff.mp hcs
    exact .char hc (ih hrest)

theorem forall₂_self (hsame : ∀ c, same c c) (cs : Text) : List.Forall₂ same cs cs :=
  List.forall₂_same.mpr fun c _ => hsame c

theorem Fits.exists_forall₂ (hsame : ∀ c, same c c) (h : Fits same ts cs) :
    ∃ ds, List.Forall₂ same cs ds ∧ Fits (· = ·) ts ds := by
  induction h with
  | nil => exact ⟨[], .nil, .nil⟩
  | any es _ ih =>
    obtain ⟨ds, hds, hfits⟩ := ih
    exact ⟨es ++ ds, List.rel_append (forall₂_self hsame es) hds, .any es hfits⟩
  | @char c d _ _ hd _ ih =>
    obtain ⟨ds, hds, hfits⟩ := ih
    exact ⟨c :: ds, .cons hd hds, .char rfl hfits⟩

theorem Regular.occursUpTo_ofTokens_iff (hsame : ∀ c, same c c) :
    (ofTokens start ts stop).OccursUpTo same cs ↔ FitsPart same start ts stop cs := by
  unfold OccursUpTo
  simp only [occurs_ofTokens_iff]
  constructor
  · rintro ⟨_, hcs, before, part, after, rfl, hfits, hstart, hstop⟩
    have hrest := List.forall₂_drop_append cs before _ hcs
    have hpart := List.forall₂_take_append _ part after hrest
    have hafter := List.forall₂_drop_append _ part after hrest
    refine ⟨cs.take before.length, (cs.drop before.length).take part.length,
      (cs.drop before.length).drop part.length, ?_, hfits.of_forall₂ hpart, ?_, ?_⟩
    · rw [List.take_append_drop, List.take_append_drop]
    · intro h
      rw [hstart h]
      rfl
    · intro h
      rw [hstop h] at hafter
      exact List.forall₂_nil_right_iff.mp hafter
  · rintro ⟨before, part, after, rfl, hfits, hstart, hstop⟩
    obtain ⟨ds, hds, hexact⟩ := hfits.exists_forall₂ hsame
    have hparts := List.rel_append hds (forall₂_self hsame after)
    have hwhole := List.rel_append (forall₂_self hsame before) hparts
    exact ⟨_, hwhole, before, ds, after, rfl, hexact, hstart, hstop⟩

/-! ### Wildcard patterns -/

theorem fits_any_append (h : Fits same (.any :: ts) cs) (ds : Text) :
    Fits same (.any :: ts) (ds ++ cs) := by
  obtain ⟨es, rest, rfl, -, hrest⟩ := fits_cons_iff.mp h
  rw [← List.append_assoc]
  exact .any _ hrest

theorem fits_append_of_getLast? (h : Fits same ts cs) (hlast : ts.getLast? = some .any)
    (ds : Text) : Fits same ts (cs ++ ds) := by
  induction ts generalizing cs with
  | nil => cases hlast
  | cons a ts ih =>
    obtain ⟨es, rest, rfl, ha, hrest⟩ := fits_cons_iff.mp h
    cases ts with
    | nil =>
      obtain rfl : a = .any := by simpa using hlast
      simpa using Fits.any (es ++ rest ++ ds) .nil
    | cons b ts =>
      rw [List.getLast?_cons_cons] at hlast
      exact fits_cons_iff.mpr ⟨es, rest ++ ds, List.append_assoc .., ha, ih hrest hlast⟩

/-- An open sign at the start takes what comes before the part that fits. -/
theorem fitsPart_tokens_iff (ps : Text) :
    FitsPart same (ps.head? ≠ some (.char '%')) (tokens ps) (ps.getLast? ≠ some (.char '%')) cs ↔
      ∃ part after, cs = part ++ after ∧ Fits same (tokens ps) part ∧
        (ps.getLast? ≠ some (.char '%') → after = []) := by
  unfold FitsPart
  simp only [decide_eq_true_eq]
  constructor
  · rintro ⟨before, part, after, rfl, hfits, hstart, hstop⟩
    refine ⟨before ++ part, after, (List.append_assoc ..).symm, ?_, hstop⟩
    by_cases hfirst : ps.head? = some (.char '%')
    · have hany := head?_tokens_eq_any_iff.mpr hfirst
      obtain ⟨ts, hts⟩ := List.head?_eq_some_iff.mp hany
      rw [hts] at hfits ⊢
      exact fits_any_append hfits before
    · rw [hstart hfirst]
      exact hfits
  · rintro ⟨part, after, rfl, hfits, hstop⟩
    exact ⟨[], part, after, rfl, hfits, fun _ => rfl, hstop⟩

theorem fits_filter (hsame : ∀ c, same c c) (cs : Text) :
    Fits same (cs.map Token.ofChar) (cs.filter (· ≠ .char '%')) := by
  induction cs with
  | nil => exact .nil
  | cons c cs ih =>
    rw [List.map_cons, Token.ofChar]
    by_cases hc : c = '%'
    · simpa [hc] using Fits.any [] ih
    · simpa [hc] using Fits.char (hsame c) ih

theorem Fits.exists_of_mem (h : Fits same ts cs) (hc : .char c ∈ ts) : ∃ d ∈ cs, same d c := by
  induction h with
  | nil => exact absurd hc List.not_mem_nil
  | any ds _ ih =>
    obtain ⟨d, hd, hsame⟩ := ih (by simpa using hc)
    exact ⟨d, List.mem_append_right _ hd, hsame⟩
  | @char c' d' _ _ hd' _ ih =>
    rcases List.mem_cons.mp hc with heq | hc
    · injection heq with heq
      exact ⟨d', List.mem_cons_self, heq ▸ hd'⟩
    · obtain ⟨d, hd, hsame⟩ := ih hc
      exact ⟨d, List.mem_cons_of_mem _ hd, hsame⟩

end DocQuery.Pattern

namespace DocQuery

open Pattern
open Text (backslash)

/-- A text of one line matches a regular expression of the store, without regard to case if its
flags say so. -/
def Value.MatchesText (same : CodePoint → CodePoint → Prop) : Value → Text → Prop
  | .regex (.text pattern) flags, cs =>
    ∃ r bits, Regular.read? flags.bits.toNat pattern = some (r, bits) ∧
      if bits / ignoreCaseBit % 2 = 1 then r.OccursUpTo same cs else r.Occurs cs
  | _, _ => False

variable {same : CodePoint → CodePoint → Prop} {ps cs : Text}

theorem matchesText_likeRegex_iff (hsame : ∀ c, same c c) :
    (likeRegex ps).MatchesText same cs ↔
      ∃ part after, cs = part ++ after ∧ Fits same (tokens ps) part ∧
        (ps.getLast? ≠ some (.char '%') → after = []) := by
  have hbit : Flags.ignoreCase.bits.toNat / ignoreCaseBit % 2 = 1 := by decide
  rw [← fitsPart_tokens_iff, ← Regular.occursUpTo_ofTokens_iff hsame, likeRegex,
    Value.MatchesText, read?_like]
  constructor
  · rintro ⟨r, bits, hread, hmatch⟩
    obtain ⟨rfl, rfl⟩ := Prod.mk.inj (Option.some.inj hread)
    rwa [if_pos hbit] at hmatch
  · intro hmatch
    exact ⟨_, _, rfl, by rwa [if_pos hbit]⟩

/-- Where all signs are open, the whole text fits. -/
theorem matchesText_likeRegex_of_signsApart (hsame : ∀ c, same c c)
    (hb : CodePoint.char backslash ∉ ps)
    (h : SignsApart ps) :
    (likeRegex ps).MatchesText same cs ↔ Fits same (ps.map Token.ofChar) cs := by
  rw [matchesText_likeRegex_iff hsame, (tokens_eq_map_ofChar_iff hb).mpr h]
  constructor
  · rintro ⟨part, after, rfl, hfits, hstop⟩
    by_cases hlast : ps.getLast? = some (.char '%')
    · refine fits_append_of_getLast? hfits ?_ after
      rw [List.getLast?_map, hlast]
      rfl
    · rw [hstop hlast, List.append_nil]
      exact hfits
  · exact fun hfits => ⟨cs, [], (List.append_nil cs).symm, hfits, fun _ => rfl⟩

theorem eq_percent_of_toLower {c : CodePoint} (h : c.toLower = .char '%') : c = .char '%' := by
  cases c with
  | surrogate n => exact nomatch h
  | char c =>
    have h := CodePoint.char_inj.mp h
    refine CodePoint.char_inj.mpr ?_
    unfold Char.toLower at h
    split at h
    · next hcapital =>
      obtain ⟨hlow, hhigh⟩ : 65 ≤ c.val ∧ c.val ≤ 90 := hcapital
      have hsum : (c.val + 32).toNat = 37 := congrArg Char.toNat h
      rw [UInt32.le_iff_toNat_le] at hlow hhigh
      rw [UInt32.toNat_add] at hsum
      simp only [UInt32.reduceToNat] at hlow hhigh hsum
      omega
    · exact h

/-- In a pattern without backslashes every percent sign is open exactly where no two of them stand
next to each other. Then the pattern matches the texts that have any text in the place of each sign;
otherwise there are such texts that it does not match, as a sign right after an open one stands for
itself. What it matches begins with a text that fits its tokens, and that is all of it unless the
pattern ends with a sign. -/
theorem like_wildcards (hsame : ∀ c, same c c) (hsign : ∀ c, same c (.char '%') → c = .char '%')
    (hb : CodePoint.char backslash ∉ ps) :
    (like ps = anchored (ps.head? ≠ some (.char '%')) (ps.map Token.ofChar)
        (ps.getLast? ≠ some (.char '%')) ↔
      SignsApart ps) ∧
    (SignsApart ps → ∀ cs, CodePoint.char '\n' ∉ cs →
      ((likeRegex ps).MatchesText same cs ↔ Fits same (ps.map Token.ofChar) cs)) ∧
    (¬ SignsApart ps → CodePoint.char '\n' ∉ ps →
      ∃ cs, CodePoint.char '\n' ∉ cs ∧ Fits same (ps.map Token.ofChar) cs ∧
        ¬ (likeRegex ps).MatchesText same cs) ∧
    ∀ cs, CodePoint.char '\n' ∉ cs → ((likeRegex ps).MatchesText same cs ↔
      ∃ part after, cs = part ++ after ∧ Fits same (tokens ps) part ∧
        (ps.getLast? ≠ some (.char '%') → after = [])) := by
  refine ⟨?_, ?_, ?_, fun cs _ => matchesText_likeRegex_iff hsame⟩
  · rw [← tokens_eq_map_ofChar_iff hb, like_eq_anchored_iff, eq_comm (a := ps.map _)]
    simp
  · exact fun h cs _ => matchesText_likeRegex_of_signsApart hsame hb h
  · intro h hline
    refine ⟨ps.filter (· ≠ .char '%'), fun hmem => hline (List.mem_of_mem_filter hmem),
      fits_filter hsame ps, fun hmatch => ?_⟩
    obtain ⟨part, after, hparts, hfits, -⟩ := (matchesText_likeRegex_iff hsame).mp hmatch
    have hclosed : .char (.char '%') ∈ tokens ps := by
      refine Decidable.byContradiction fun hmem => h ?_
      exact (tokens_eq_map_ofChar_iff hb).mp (tokens_eq_map_ofChar_of_not_mem hmem)
    obtain ⟨d, hd, hread⟩ := hfits.exists_of_mem hclosed
    obtain rfl := hsign d hread
    have hmem : CodePoint.char '%' ∈ ps.filter (· ≠ .char '%') := hparts ▸ List.mem_append_left _ hd
    simp at hmem

/-- Letters in another case at the open signs of one pattern, and two signs in another one. -/
theorem like_wildcards_name :
    let same (d c : CodePoint) : Prop := d.toLower = c.toLower
    let ps : Text := "%n%s"
    let pair : Text := "a%%"
    (∀ c, same c c) ∧ (∀ c, same c (.char '%') → c = .char '%') ∧
      CodePoint.char backslash ∉ ps ∧ CodePoint.char backslash ∉ pair ∧
      SignsApart ps ∧ ¬ SignsApart pair ∧
      (likeRegex ps).MatchesText same ['J', 'o', 'N', 'e', 'S'] ∧
      ¬ (likeRegex ps).MatchesText same ['n', 'o'] ∧
      ∃ cs, CodePoint.char '\n' ∉ cs ∧ Fits same (pair.map Token.ofChar) cs ∧
        ¬ (likeRegex pair).MatchesText same cs := by
  intro same ps pair
  have hsame : ∀ c, same c c := fun c => rfl
  have hsign : ∀ c, same c (.char '%') → c = .char '%' := fun c => eq_percent_of_toLower
  have hb : CodePoint.char backslash ∉ ps := by decide
  have hpair : CodePoint.char backslash ∉ pair := by decide
  have hapart : SignsApart ps := by decide
  have hnext : ¬ SignsApart pair := by decide
  have hmatches := (like_wildcards hsame hsign hb).2.1 hapart
  refine ⟨hsame, hsign, hb, hpair, hapart, hnext, ?_, ?_,
    (like_wildcards hsame hsign hpair).2.2.1 hnext (by decide)⟩
  · exact (hmatches _ (by decide)).mpr (.any ['J', 'o'] (.char rfl (.any ['e'] (.char rfl .nil))))
  · intro hmatch
    have hfits := (hmatches _ (by decide)).mp hmatch
    obtain ⟨d, hd, hread⟩ := hfits.exists_of_mem (c := 's') (by decide)
    have hnone : ([.char 'n', .char 'o'] : Text).all fun d => d.toLower ≠ .char 's' := by decide
    exact of_decide_eq_true (List.all_eq_true.mp hnone d hd) hread

/-- The second of two signs does not stand for any text. -/
theorem exists_closed_sign :
    let ps : Text := "%%"
    CodePoint.char backslash ∉ ps ∧ like ps = ".*%" ∧
      like ps ≠ anchored (ps.head? ≠ some (.char '%')) (ps.map Token.ofChar)
        (ps.getLast? ≠ some (.char '%')) ∧
      Fits (· = ·) (ps.map Token.ofChar) ['a', 'b'] ∧
      ¬ (likeRegex ps).MatchesText (· = ·) ['a', 'b'] := by
  refine ⟨by decide, by decide, by decide, .any ['a', 'b'] (.any [] .nil), fun hmatch => ?_⟩
  obtain ⟨part, after, hparts, hfits, -⟩ := (matchesText_likeRegex_iff fun _ => rfl).mp hmatch
  have hclosed : Token.char '%' ∈ tokens ("%%" : String) := by decide
  obtain ⟨_, hd, rfl⟩ := hfits.exists_of_mem hclosed
  have hmem : CodePoint.char '%' ∈ ([.char 'a', .char 'b'] : Text) :=
    hparts ▸ List.mem_append_left _ hd
  exact absurd hmem (by decide)

end DocQuery

import DocQuery.Path
import DocQuery.Proofs.Text.Quoted
import DocQuery.Value.Written

/-!
# Which octets and patterns are written alike

Octets are written in full, and the flags of a compiled pattern as names from which they can be read
back (`flagsWritten_inj`). Of the pattern itself a certain number of characters is written, so that
patterns with the same flags are written alike where they agree in these: `written_eq_iff`.
-/

namespace DocQuery.Value

variable {m n : Nat} {flags flags' : Int} {p q : Text} {v w : Value}

theorem mod_eq_sum_flags (n : Nat) :
    n % 512 = (flagNames.map fun f => f.1 * (n / f.1 % 2)).foldr (· + ·) 0 := by
  simp only [flagNames, List.map_cons, List.map_nil, List.foldr_cons, List.foldr_nil]
  omega

/-- What is written for the flags that have no name, if any. -/
def unnamedFlags (n : Nat) : List (List Char) :=
  if n / 512 * 512 = 0 then [] else [['0', 'x'] ++ Nat.toDigits 16 (n / 512 * 512)]

theorem flagsWritten_eq (n : Nat) : flagsWritten n =
    (flagNames.filter fun f => n / f.1 % 2 == 1).map (·.2.toList) ++ unnamedFlags n := rfl

theorem unnamedFlags_inj (h : unnamedFlags m = unnamedFlags n) : m / 512 = n / 512 := by
  unfold unnamedFlags at h
  split at h
  · split at h
    · omega
    · exact nomatch h
  · split at h
    · exact nomatch h
    · have hdigits := List.append_cancel_left (List.cons.inj h).1
      have hrest := Text.toDigits_sixteen_inj hdigits
      omega

theorem mem_flagsWritten_iff {f : Nat × String} (hf : f ∈ flagNames) :
    f.2.toList ∈ flagsWritten n ↔ n / f.1 % 2 = 1 := by
  have hnames : ∀ f ∈ flagNames, ∀ g ∈ flagNames, f.2.toList = g.2.toList → f = g := by decide
  have hunnamed : f.2.toList ∉ unnamedFlags n := by
    have hhead : ∀ f ∈ flagNames, f.2.toList.head? = some 'r' := by decide
    unfold unnamedFlags
    split
    · exact List.not_mem_nil
    · intro hmem
      have hcontra := hhead f hf
      rw [List.mem_singleton.mp hmem] at hcontra
      exact absurd (Option.some.inj hcontra) (by decide)
  rw [flagsWritten_eq, List.mem_append, or_iff_left hunnamed, List.mem_map]
  constructor
  · rintro ⟨g, hg, hgf⟩
    obtain ⟨hg, hbit⟩ := List.mem_filter.mp hg
    obtain rfl := hnames g hg f hf hgf
    exact beq_iff_eq.mp hbit
  · intro hbit
    exact ⟨f, List.mem_filter.mpr ⟨hf, beq_iff_eq.mpr hbit⟩, rfl⟩

theorem flagsWritten_inj (h : flagsWritten m = flagsWritten n) : m = n := by
  have hbits : ∀ f ∈ flagNames, m / f.1 % 2 = n / f.1 % 2 := by
    intro f hf
    have hiff : m / f.1 % 2 = 1 ↔ n / f.1 % 2 = 1 := by
      rw [← mem_flagsWritten_iff hf, ← mem_flagsWritten_iff hf, h]
    omega
  have hlow : m % 512 = n % 512 := by
    rw [mod_eq_sum_flags, mod_eq_sum_flags]
    exact congrArg (List.foldr (· + ·) 0) (List.map_congr_left fun f hf => by rw [hbits f hf])
  have hnamed : (flagNames.filter fun f => m / f.1 % 2 == 1) =
      flagNames.filter fun f => n / f.1 % 2 == 1 :=
    List.filter_congr fun f hf => by rw [hbits f hf]
  rw [flagsWritten_eq, flagsWritten_eq, hnamed] at h
  have hhigh := unnamedFlags_inj (List.append_cancel_left h)
  omega

theorem bar_notMem_flagsWritten {part : List Char} (h : part ∈ flagsWritten n) : '|' ∉ part := by
  have hnames : ∀ f ∈ flagNames, '|' ∉ f.2.toList := by decide
  have hdigits : ∀ d < 16, '|' ≠ Nat.digitChar d := by decide
  rw [flagsWritten_eq, List.mem_append] at h
  rcases h with h | h
  · obtain ⟨f, hf, rfl⟩ := List.mem_map.mp h
    exact hnames f (List.mem_filter.mp hf).1
  · unfold unnamedFlags at h
    split at h
    · exact nomatch h
    · rw [List.mem_singleton.mp h, List.mem_append, not_or]
      refine ⟨by decide, fun hmem => ?_⟩
      obtain ⟨d, hd, heq⟩ := Text.exists_of_mem_toDigits_sixteen hmem
      exact hdigits d hd heq

theorem alternatives_flagsWritten_inj (hm : flagsWritten m ≠ []) (hn : flagsWritten n ≠ [])
    (h : alternatives (flagsWritten m) = alternatives (flagsWritten n)) : m = n := by
  refine flagsWritten_inj ?_
  rw [← List.splitOn_intercalate '|' (fun _ => bar_notMem_flagsWritten) hm,
    ← List.splitOn_intercalate '|' (fun _ => bar_notMem_flagsWritten) hn]
  exact congrArg (List.splitOn '|') h

/-- The flags that compiling a pattern of text leaves it with: they do not depend on the locale, and
it is for all of the character database unless it is for ASCII. -/
structure TextFlags (flags : Int) : Prop where
  nonneg : 0 ≤ flags
  not_locale : flags / 4 % 2 = 0
  database_iff : flags / databaseBit % 2 = 1 ↔ flags / asciiBit % 2 = 0

theorem shownFlags_inj (h : TextFlags flags) (h' : TextFlags flags')
    (heq : shownFlags (text p) flags.toNat = shownFlags (text q) flags'.toNat) :
    flags = flags' := by
  obtain ⟨hnonneg, hlocale, hiff⟩ := h
  obtain ⟨hnonneg', hlocale', hiff'⟩ := h'
  obtain ⟨a, rfl⟩ := Int.eq_ofNat_of_zero_le hnonneg
  obtain ⟨b, rfl⟩ := Int.eq_ofNat_of_zero_le hnonneg'
  simp only [shownFlags, isText, text?, Option.isSome_some, true_and, Int.toNat_natCast,
    databaseBit, asciiBit] at *
  split at heq <;> split at heq <;> omega

/-- Octets, and compiled patterns of text. -/
inductive IsShown : Value → Prop
  | octets (bs : List UInt8) : IsShown (bytes bs)
  | pattern (p : Text) {flags : Int} (h : TextFlags flags) : IsShown (compiled (text p) flags)

/-- As much of a pattern as is shown of it. -/
def patternShown (p : Text) : List Char :=
  (Text.quoted p).take maxPatternShown

/-- The pattern is too long to be shown in full. -/
def IsCut (p : Text) : Prop :=
  maxPatternShown < (Text.quoted p).length

/-- Patterns with the same flags that are cut, and differ in what is not shown if in anything. -/
inductive CutAlike : Value → Value → Prop
  | intro {p q : Text} (flags : Int) (hp : IsCut p) (hq : IsCut q)
      (h : patternShown p = patternShown q) :
      CutAlike (compiled (text p) flags) (compiled (text q) flags)

/-- What follows the pattern in the written form. -/
def flagsEnding (parts : List (List Char)) : List Char :=
  if parts = [] then [')'] else [',', ' '] ++ alternatives parts ++ [')']

theorem compiledWritten_eq (pattern : Value) (shown : List Char) (n : Nat) :
    compiledWritten pattern shown n = "re.compile".toList ++ '(' ::
      (shown.take maxPatternShown ++ flagsEnding (flagsWritten (shownFlags pattern n))) := by
  have hone : ∀ a, commaSeparated [a] = a := fun a => by simp [commaSeparated]
  have htwo : ∀ a b, commaSeparated [a, b] = a ++ ([',', ' '] ++ b) := fun a b => by
    simp [commaSeparated]
  unfold compiledWritten flagsEnding callForm
  by_cases h : flagsWritten (shownFlags pattern n) = []
  · simp only [h, if_true, hone, List.append_assoc, List.cons_append]
  · simp only [h, if_false, htwo, List.append_assoc, List.cons_append]

theorem flagsEnding_inj (h : flagsEnding (flagsWritten m) = flagsEnding (flagsWritten n)) :
    m = n := by
  unfold flagsEnding at h
  split at h
  · next hm =>
    split at h
    · next hn => exact flagsWritten_inj (hm.trans hn.symm)
    · exact absurd (List.cons.inj h).1 (by decide)
  · next hm =>
    split at h
    · exact absurd (List.cons.inj h).1 (by decide)
    · next hn =>
      rw [List.append_assoc, List.append_assoc] at h
      exact alternatives_flagsWritten_inj hm hn
        (List.append_cancel_right (List.append_cancel_left h))

theorem written_bytes (bs : List UInt8) : (bytes bs).written = .ok (Text.quotedOctets bs) := rfl

theorem written_pattern (p : Text) (flags : Int) :
    (compiled (text p) flags).written = .ok ("re.compile".toList ++ '(' ::
      (patternShown p ++ flagsEnding (flagsWritten (shownFlags (text p) flags.toNat)))) :=
  congrArg Except.ok (compiledWritten_eq _ _ _)

theorem exists_written_of_isShown (h : IsShown v) : ∃ cs, v.written = .ok cs := by
  cases h with
  | octets bs => exact ⟨_, written_bytes bs⟩
  | pattern p => exact ⟨_, written_pattern p _⟩

theorem written_pattern_inj (h : TextFlags flags) (h' : TextFlags flags')
    (heq : (compiled (text p) flags).written = (compiled (text q) flags').written) :
    flags = flags' ∧ patternShown p = patternShown q := by
  rw [written_pattern, written_pattern] at heq
  obtain ⟨hshown, hending⟩ :=
    Text.take_quoted_append_inj (List.cons.inj (List.append_cancel_left (Except.ok.inj heq))).2
  exact ⟨shownFlags_inj h h' (flagsEnding_inj hending), hshown⟩

theorem written_bytes_ne_pattern (bs : List UInt8) (p : Text) (flags : Int) :
    (bytes bs).written ≠ (compiled (text p) flags).written := by
  rw [written_bytes, written_pattern]
  intro h
  exact absurd (List.cons.inj (Except.ok.inj h)).1 (by decide)

/-- A pattern that is shown in full is the only one that is shown so. -/
theorem eq_or_isCut_of_patternShown_eq (h : patternShown p = patternShown q) :
    p = q ∨ IsCut p ∧ IsCut q := by
  by_cases hp : IsCut p
  · by_cases hq : IsCut q
    · exact .inr ⟨hp, hq⟩
    · exact .inl ((Text.take_quoted_eq_iff (Nat.le_of_not_lt hq)).mp h.symm).symm
  · exact .inl ((Text.take_quoted_eq_iff (Nat.le_of_not_lt hp)).mp h)

/-- Octets and patterns are written alike only where they are the same or cut. -/
theorem written_eq_iff (hv : IsShown v) (hw : IsShown w) :
    v.written = w.written ↔ v = w ∨ CutAlike v w := by
  constructor
  · intro h
    cases hv with
    | octets bs =>
      cases hw with
      | octets cs =>
        exact .inl (congrArg bytes (Text.quotedOctets_inj (Except.ok.inj h)))
      | pattern q hq => exact absurd h (written_bytes_ne_pattern bs q _)
    | pattern p hp =>
      cases hw with
      | octets cs => exact absurd h.symm (written_bytes_ne_pattern cs p _)
      | pattern q hq =>
        obtain ⟨rfl, hshown⟩ := written_pattern_inj hp hq h
        rcases eq_or_isCut_of_patternShown_eq hshown with rfl | ⟨hp, hq⟩
        · exact .inl rfl
        · exact .inr (.intro _ hp hq hshown)
  · rintro (rfl | ⟨flags, hp, hq, h⟩)
    · rfl
    · rw [written_pattern, written_pattern, h]
      rfl

end DocQuery.Value

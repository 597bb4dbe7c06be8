import DocQuery.Predicate.Operand

/-!
# Reading patterns between slashes

A text is read as a pattern with flags where it is a slash, the pattern, a further slash and letters
(`Delimits`), or that with a line end after it; `parseRegex_text` says so of every text. The pattern
is all that is between the first slash and the last one, since no letter is a slash.
-/

namespace DocQuery.Pattern

variable {cs pattern before after letters : Text}

theorem not_mem_of_isLetter {c : CodePoint} (hc : c.is isLetter = false)
    (h : ∀ d ∈ letters, d.is isLetter = true) : c ∉ letters := by
  intro hmem
  rw [h c hmem] at hc
  exact Bool.noConfusion hc

theorem ne_append_lineEnd (h : ∀ d ∈ letters, d.is isLetter = true) (cs : Text) :
    letters ≠ cs ++ [.char '\n'] := by
  rintro rfl
  exact not_mem_of_isLetter (by decide) h (List.mem_append_right cs (List.mem_singleton_self _))

theorem splitAtLastSlash?_eq_some_iff :
    splitAtLastSlash? cs = some (before, after) ↔
      cs = before ++ CodePoint.char '/' :: after ∧ CodePoint.char '/' ∉ after := by
  constructor
  · intro h
    have hcs := List.takeWhile_append_dropWhile (p := (· != .char '/')) (l := cs.reverse)
    unfold splitAtLastSlash? at h
    split at h
    · cases h
    · next slash rest hrest =>
      obtain ⟨rfl, rfl⟩ := Prod.mk.inj (Option.some.inj h)
      have hslash : slash = .char '/' := by
        have hhead := List.head?_dropWhile_not (· != .char '/') cs.reverse
        rw [hrest] at hhead
        simpa using hhead
      rw [hrest, hslash] at hcs
      refine ⟨?_, fun hmem => ?_⟩
      · have hcs' := List.reverse_eq_iff.mp hcs.symm
        simpa using hcs'
      · have hall :=
          List.all_eq_true.mp (List.all_takeWhile (p := (· != .char '/')) (l := cs.reverse))
        simpa using hall (.char '/') (List.mem_reverse.mp hmem)
  · rintro ⟨rfl, hslash⟩
    have hafter : ∀ c ∈ after.reverse, (c != .char '/') = true := by
      intro c hc
      simpa using fun h : c = .char '/' => hslash (h ▸ List.mem_reverse.mp hc)
    have hcs : (before ++ CodePoint.char '/' :: after).reverse =
        after.reverse ++ CodePoint.char '/' :: before.reverse := by simp
    unfold splitAtLastSlash?
    rw [hcs, List.dropWhile_append_of_pos hafter, List.takeWhile_append_of_pos hafter]
    simp

theorem flagLetters?_eq_some_iff :
    flagLetters? cs = some letters ↔
      (∀ c ∈ letters, c.is isLetter = true) ∧ (cs = letters ∨ cs = letters ++ [.char '\n']) := by
  unfold flagLetters?
  simp only [Option.ite_none_right_eq_some, Option.some_inj, List.all_eq_true]
  by_cases hlast : cs.getLast? = some (.char '\n')
  · obtain ⟨rest, rfl⟩ := List.getLast?_eq_some_iff.mp hlast
    rw [if_pos hlast, List.dropLast_concat]
    constructor
    · rintro ⟨hall, rfl⟩
      exact ⟨hall, .inr rfl⟩
    · rintro ⟨hall, heq | heq⟩
      · exact absurd heq.symm (ne_append_lineEnd hall rest)
      · obtain rfl := List.append_cancel_right heq
        exact ⟨hall, rfl⟩
  · rw [if_neg hlast]
    constructor
    · rintro ⟨hall, rfl⟩
      exact ⟨hall, .inl rfl⟩
    · rintro ⟨hall, rfl | rfl⟩
      · exact ⟨hall, rfl⟩
      · exact absurd List.getLast?_concat hlast

theorem delimited?_eq_some_iff :
    delimited? cs = some (pattern, letters) ↔ (∀ c ∈ letters, c.is isLetter = true) ∧
      (cs = CodePoint.char '/' :: (pattern ++ CodePoint.char '/' :: letters) ∨
        cs =
          CodePoint.char '/' :: (pattern ++ CodePoint.char '/' :: (letters ++ [.char '\n']))) := by
  constructor
  · intro h
    unfold delimited? at h
    split at h
    · next rest =>
      obtain ⟨⟨before, after⟩, hsplit, h⟩ := Option.bind_eq_some_iff.mp h
      obtain ⟨flags, hflags, h⟩ := Option.bind_eq_some_iff.mp h
      obtain ⟨rfl, rfl⟩ := Prod.mk.inj (Option.some.inj h)
      obtain ⟨rfl, -⟩ := splitAtLastSlash?_eq_some_iff.mp hsplit
      obtain ⟨hall, rfl | rfl⟩ := flagLetters?_eq_some_iff.mp hflags
      · exact ⟨hall, .inl rfl⟩
      · exact ⟨hall, .inr rfl⟩
    · exact nomatch h
  · rintro ⟨hall, h⟩
    obtain ⟨tail, htail, hslash, rfl⟩ : ∃ tail, (tail = letters ∨ tail = letters ++ [.char '\n']) ∧
        CodePoint.char '/' ∉ tail ∧
          cs = CodePoint.char '/' :: (pattern ++ CodePoint.char '/' :: tail) := by
      have hno : CodePoint.char '/' ∉ letters := not_mem_of_isLetter (by decide) hall
      rcases h with rfl | rfl
      · exact ⟨_, .inl rfl, hno, rfl⟩
      · exact ⟨_, .inr rfl, by simpa using hno, rfl⟩
    refine Option.bind_eq_some_iff.mpr ⟨(pattern, tail), ?_, Option.bind_eq_some_iff.mpr
      ⟨letters, flagLetters?_eq_some_iff.mpr ⟨hall, htail⟩, rfl⟩⟩
    exact splitAtLastSlash?_eq_some_iff.mpr ⟨rfl, hslash⟩

/-- The text is the pattern between slashes, with the letters after them. -/
structure Delimits (s pattern letters : Text) : Prop where
  eq : s = "/" ++ pattern ++ "/" ++ letters
  letters : ∀ c ∈ letters, c.is isLetter = true

/-- The same, where a line end may follow the letters. -/
def DelimitsLine (s pattern letters : Text) : Prop :=
  Delimits s pattern letters ∨ ∃ line, s = line ++ "\n" ∧ Delimits line pattern letters

variable {s p l : Text}

theorem slashes_eq (p l : Text) :
    ("/" ++ p ++ "/" ++ l : Text) = .char '/' :: (p ++ .char '/' :: l) := by
  simp [Text.ofString, Text.ofChars]

theorem delimits_iff : Delimits s p l ↔ (∀ c ∈ l, c.is isLetter = true) ∧
    s = .char '/' :: (p ++ .char '/' :: l) := by
  rw [← slashes_eq]
  exact ⟨fun h => ⟨h.letters, h.eq⟩, fun h => ⟨h.2, h.1⟩⟩

theorem delimitsLine_iff : DelimitsLine s p l ↔ (∀ c ∈ l, c.is isLetter = true) ∧
    (s = .char '/' :: (p ++ .char '/' :: l) ∨
      s = .char '/' :: (p ++ .char '/' :: (l ++ [.char '\n']))) := by
  unfold DelimitsLine
  rw [delimits_iff, and_or_left]
  refine or_congr_right ?_
  constructor
  · rintro ⟨line, rfl, h⟩
    obtain ⟨hall, rfl⟩ := delimits_iff.mp h
    exact ⟨hall, by simp [Text.ofString, Text.ofChars]⟩
  · rintro ⟨hall, rfl⟩
    refine ⟨"/" ++ p ++ "/" ++ l, ?_, rfl, hall⟩
    simp [Text.ofString, Text.ofChars]

theorem delimited?_iff_delimitsLine : delimited? s = some (p, l) ↔ DelimitsLine s p l :=
  delimited?_eq_some_iff.trans delimitsLine_iff.symm

theorem Delimits.ne_append_lineEnd (h : Delimits s p l) (line : Text) : s ≠ line ++ "\n" := by
  rintro rfl
  obtain ⟨hall, hs⟩ := delimits_iff.mp h
  -- the last character is a letter, or the slash before the letters
  have hlast := congrArg List.getLast? hs
  have hline : (line ++ "\n" : Text).getLast? = some (.char '\n') := List.getLast?_concat
  rw [hline, List.getLast?_cons, List.getLast?_append] at hlast
  cases hl : l.getLast? with
  | none => simp [List.getLast?_cons, hl] at hlast
  | some c =>
    obtain rfl : .char '\n' = c := by simpa [List.getLast?_cons, hl] using hlast
    exact not_mem_of_isLetter (by decide) hall (List.mem_of_getLast? hl)

end DocQuery.Pattern

namespace DocQuery

open Pattern (Delimits DelimitsLine delimited? delimited?_iff_delimitsLine)

variable {v : Value} {s : Text}

theorem parseRegex_of_text (hv : v.text? = some s) :
    parseRegex v = match delimited? s with
      | some (pattern, letters) => .regex (.text pattern) (.ofLetters letters)
      | none => v := by
  rcases Value.text?_eq_some_iff.mp hv with rfl | ⟨m, rfl, rfl⟩ <;> rfl

theorem parseRegex_of_delimitsLine {pattern letters : Text} (hv : v.text? = some s)
    (h : DelimitsLine s pattern letters) :
    parseRegex v = .regex (.text pattern) (.ofLetters letters) := by
  rw [parseRegex_of_text hv, delimited?_iff_delimitsLine.mpr h]

theorem parseRegex_of_not_delimitsLine (hv : v.text? = some s)
    (h : ∀ pattern letters, ¬ DelimitsLine s pattern letters) : parseRegex v = v := by
  rw [parseRegex_of_text hv]
  split
  · next pattern letters hsome =>
    exact absurd (delimited?_iff_delimitsLine.mp hsome) (h pattern letters)
  · rfl

theorem parseRegex_eq_regex_iff (hv : v.text? = some s) (r : Value) (flags : Pattern.Flags) :
    parseRegex v = .regex r flags ↔ ∃ pattern letters, DelimitsLine s pattern letters ∧
      r = .text pattern ∧ flags = .ofLetters letters := by
  constructor
  · intro h
    by_cases hno : ∀ pattern letters, ¬ DelimitsLine s pattern letters
    · rw [parseRegex_of_not_delimitsLine hv hno] at h
      rw [h] at hv
      exact nomatch hv
    · simp only [Classical.not_forall, Classical.not_not] at hno
      obtain ⟨pattern, letters, hline⟩ := hno
      rw [parseRegex_of_delimitsLine hv hline] at h
      obtain ⟨rfl, rfl⟩ := Value.regex.inj h
      exact ⟨pattern, letters, hline, rfl, rfl⟩
  · rintro ⟨pattern, letters, hline, rfl, rfl⟩
    exact parseRegex_of_delimitsLine hv hline

/-- A text is read as a pattern with flags exactly where it is one between slashes, but for a line
end that may follow; any other text stays what it is. -/
theorem parseRegex_text (hv : v.text? = some s) :
    (∀ r flags, parseRegex v = .regex r flags ↔ ∃ pattern letters,
        DelimitsLine s pattern letters ∧ r = .text pattern ∧ flags = .ofLetters letters) ∧
      ((∀ pattern letters, ¬ DelimitsLine s pattern letters) → parseRegex v = v) ∧
      ∀ pattern letters, DelimitsLine s pattern letters →
        (Delimits s pattern letters ↔ ∀ line, s ≠ line ++ "\n") := by
  refine ⟨parseRegex_eq_regex_iff hv, parseRegex_of_not_delimitsLine hv, ?_⟩
  rintro pattern letters (h | ⟨line, hs, -⟩)
  · exact iff_of_true h h.ne_append_lineEnd
  · exact iff_of_false (fun h => h.ne_append_lineEnd line hs) fun h => h line hs

/-- Slashes and a line end within the pattern, and a letter that stands for no flag. -/
theorem parseRegex_text_slashes :
    let s : Text := "/a/b\n//imq"
    (Value.text s).text? = some s ∧
      parseRegex (.text s) = .regex (.text "a/b\n/") (.ofLetters "im") ∧
      ∀ line, s ≠ line ++ "\n" := by
  intro s
  have hs : Delimits s "a/b\n/" "imq" := ⟨by decide, List.all_eq_true.mp rfl⟩
  obtain ⟨hread, -, hform⟩ := parseRegex_text (v := .text s) rfl
  exact ⟨rfl, (hread _ _).mpr ⟨_, _, .inl hs, rfl, by decide⟩, (hform _ _ (.inl hs)).mp hs⟩

/-- A text that ends with a line end is no pattern between slashes, and yet is read as one. -/
theorem exists_lineEnd_dropped :
    ∃ s, (¬ ∃ pattern letters, Delimits s pattern letters) ∧
      parseRegex (.text s) = .regex (.text "abc") (.ofLetters "i") := by
  refine ⟨"/abc/i\n", ?_, by decide⟩
  rintro ⟨pattern, letters, h⟩
  exact h.ne_append_lineEnd "/abc/i" (by decide)

end DocQuery

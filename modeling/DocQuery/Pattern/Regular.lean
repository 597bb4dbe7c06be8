import DocQuery.Text.Basic

/-!
# Regular expressions

What a regular expression matches: from a spot in a text, the spots where a match can end, the
preferred one first. The texts to be matched are the separators of paths, which are one line and
hold no letters, so that neither line ends nor the case of letters play a part. Main statement:
`Regular.text_of_mem_ends`, that matching moves in the text and leaves it as it is.

A text is cut where a regular expression matches, and what its groups have matched stands between
the pieces (`Regular.split`). The next match is looked for from the end of the last one; after an
empty match, the match at the same place must not be empty.
-/

namespace DocQuery.Pattern

inductive CharSet where
  | range (low high : Nat)
  | either (a b : CharSet)
  | outside (a : CharSet)
deriving DecidableEq, Repr

namespace CharSet

def has : CharSet → CodePoint → Bool
  | range low high, c => low ≤ c.toNat && c.toNat ≤ high
  | either a b, c => a.has c || b.has c
  | outside a, c => !a.has c

def one (n : Nat) : CharSet :=
  range n n

def digits : CharSet :=
  range 0x30 0x39

def blanks : CharSet :=
  either (range 0x9 0xD) (one 0x20)

/-- Letters, digits and the underscore. -/
def word : CharSet :=
  either digits (either (range 0x41 0x5A) (either (range 0x61 0x7A) (one 0x5F)))

def every : CharSet :=
  range 0 0x10FFFF

end CharSet

/-- How many repetitions are preferred; one that holds on keeps what it has matched. -/
inductive Effort where
  | greedy
  | lazy
  | holding
deriving DecidableEq, Repr

inductive Regular where
  | empty
  | char (set : CharSet)
  | textStart
  | textEnd
  /-- Where a word starts or ends. -/
  | wordEdge
  | noWordEdge
  /-- What the group has matched, once more. -/
  | again (group : Nat)
  | seq (first second : Regular)
  /-- Either of two, the first one preferred. -/
  | either (first second : Regular)
  | repeated (body : Regular) (least : Nat) (most : Option Nat) (effort : Effort)
  | group (index : Nat) (body : Regular)
  /-- The preferred match and no other. -/
  | settled (body : Regular)
  /-- Whether a match starts here. -/
  | ahead (negated : Bool) (body : Regular)
  /-- Whether a match ends here. -/
  | behind (negated : Bool) (body : Regular)
  /-- One of two, by whether the group has matched. -/
  | ifGroup (group : Nat) (yes no : Regular)
deriving Repr, Inhabited

/-- A spot in a text, the characters before it with the nearest first, and what the groups have
matched on the way. -/
structure Spot where
  before : Text := []
  after : Text
  groups : List (Nat × Text) := []
deriving DecidableEq, Repr

namespace Spot

def text (s : Spot) : Text :=
  s.before.reverse ++ s.after

/-- The spot after the next character, if that is in the set. -/
def next (s : Spot) (set : CharSet) : List Spot :=
  match s.after with
  | [] => []
  | c :: rest => if set.has c then [{ s with before := c :: s.before, after := rest }] else []

/-- The spot after the given characters, if they come next. -/
def skip (s : Spot) : Text → List Spot
  | [] => [s]
  | c :: cs => (s.next (.one c.toNat)).flatMap (·.skip cs)

/-- Whether one of the characters beside the spot, and only one, belongs to a word. -/
def isWordEdge (s : Spot) : Bool :=
  s.before.head?.any CharSet.word.has != s.after.head?.any CharSet.word.has

/-- The spot as the end of a group that starts at another. -/
def close (s start : Spot) (group : Nat) : Spot :=
  let matched := start.after.take (start.after.length - s.after.length)
  { s with groups := (group, matched) :: s.groups.filter (·.1 != group) }

/-- The spots from one that lies between two texts back to the start, the nearest first. -/
def backFrom (groups : List (Nat × Text)) : Text → Text → List Spot
  | [], after => [⟨[], after, groups⟩]
  | c :: before, after => ⟨c :: before, after, groups⟩ :: backFrom groups before (c :: after)

/-- The spot and those before it. -/
def upTo (s : Spot) : List Spot :=
  backFrom s.groups s.before s.after

end Spot

/-- The ends of a number of matches one after the other. Where a further match ends in the same
spots, so do all that follow. -/
def times (step : Spot → List Spot) : Nat → List Spot → List Spot
  | 0, spots => spots
  | n + 1, spots =>
    let further := (spots.flatMap step).eraseDups
    if further = spots then spots else times step n further

/-- The ends of at most a number of matches one after the other. A match that starts where the one
before it started is not tried. -/
def upToTimes (step : Spot → List Spot) (greedy : Bool) : Nat → Option Nat → Spot → List Spot
  | 0, _, s => [s]
  | n + 1, last, s =>
    if last = some s.after.length then [s]
    else
      let further := (step s).flatMap (upToTimes step greedy n (some s.after.length))
      if greedy then further ++ [s] else s :: further

/-- The ends of at least and at most a number of matches one after the other. Of those that are not
needed, at most one goes nowhere, so that the rest of the text bounds their number. -/
def repeats (step : Spot → List Spot) (least : Nat) (most : Option Nat) (greedy : Bool) (s : Spot) :
    List Spot :=
  (times step least [s]).flatMap fun e =>
    let room := e.after.length + 1
    upToTimes step greedy (most.elim room fun n => min (n - least) room) none e

namespace Regular

/-- The spots where a match that starts at a spot can end, in the order of preference. -/
def ends : Regular → Spot → List Spot
  | empty, s => [s]
  | char set, s => s.next set
  | textStart, s => if s.before.isEmpty then [s] else []
  | textEnd, s => if s.after.isEmpty then [s] else []
  | wordEdge, s => if s.isWordEdge then [s] else []
  | noWordEdge, s => if !s.isWordEdge && !s.text.isEmpty then [s] else []
  | again i, s => match s.groups.lookup i with
    | some cs => s.skip cs
    | none => []
  | seq r q, s => (r.ends s).flatMap fun e => q.ends e
  | either r q, s => r.ends s ++ q.ends s
  | repeated r least most .holding, s =>
    (repeats (fun t => (r.ends t).take 1) least most true s).take 1
  | repeated r least most effort, s =>
    repeats (fun t => r.ends t) least most (effort = .greedy) s
  | group i r, s => (r.ends s).map (·.close s i)
  | settled r, s => (r.ends s).take 1
  | ahead negated r, s => look negated s (r.ends s)
  | behind negated r, s =>
    look negated s ((s.upTo.flatMap fun start => r.ends start).filter (·.after = s.after))
  | ifGroup i r q, s => if (s.groups.lookup i).isSome then r.ends s else q.ends s
where
  /-- The spot itself, if there is a match or, negated, if there is none. -/
  look (negated : Bool) (s : Spot) (found : List Spot) : List Spot :=
    if negated then if found.isEmpty then [s] else []
    else (found.take 1).map fun e => { s with groups := e.groups }

/-- How many groups there are, which are numbered in the order in which they open. -/
def groupCount : Regular → Nat
  | seq r q | either r q | ifGroup _ r q => r.groupCount + q.groupCount
  | group _ r => r.groupCount + 1
  | repeated r _ _ _ | settled r | ahead _ r | behind _ r => r.groupCount
  | _ => 0

theorem text_of_mem_next {s e : Spot} {set : CharSet} (h : e ∈ s.next set) : e.text = s.text := by
  simp only [Spot.next] at h
  split at h
  · simp at h
  · rename_i hs
    split at h <;> simp at h
    simp [h, Spot.text, hs]

theorem text_of_mem_skip {cs : Text} {s e : Spot} (h : e ∈ s.skip cs) : e.text = s.text := by
  induction cs generalizing s with
  | nil => simp_all [Spot.skip]
  | cons c cs ih =>
    simp only [Spot.skip, List.mem_flatMap] at h
    obtain ⟨t, ht, h⟩ := h
    rw [ih h, text_of_mem_next ht]

theorem text_of_mem_times {step : Spot → List Spot} (hstep : ∀ s, ∀ e ∈ step s, e.text = s.text)
    {n : Nat} {spots : List Spot} {t : Text} (hs : ∀ s ∈ spots, s.text = t) {e : Spot}
    (h : e ∈ times step n spots) : e.text = t := by
  induction n generalizing spots with
  | zero => exact hs e h
  | succ n ih =>
    simp only [times] at h
    split at h
    · exact hs e h
    · refine ih (fun f hf => ?_) h
      rw [List.mem_eraseDups, List.mem_flatMap] at hf
      obtain ⟨s, hmem, hf⟩ := hf
      rw [hstep s f hf, hs s hmem]

theorem text_of_mem_upToTimes {step : Spot → List Spot}
    (hstep : ∀ s, ∀ e ∈ step s, e.text = s.text) {greedy : Bool} {n : Nat} {last : Option Nat}
    {s e : Spot} (h : e ∈ upToTimes step greedy n last s) : e.text = s.text := by
  induction n generalizing last s with
  | zero => simp_all [upToTimes]
  | succ n ih =>
    have further (h : e ∈ (step s).flatMap
        (upToTimes step greedy n (some s.after.length))) : e.text = s.text := by
      obtain ⟨t, ht, h⟩ := List.mem_flatMap.mp h
      rw [ih h, hstep s t ht]
    simp only [upToTimes] at h
    split at h
    · simp_all
    · split at h
      · rcases List.mem_append.mp h with h | h
        · exact further h
        · simp_all
      · rcases List.mem_cons.mp h with rfl | h
        · rfl
        · exact further h

theorem text_of_mem_repeats {step : Spot → List Spot}
    (hstep : ∀ s, ∀ e ∈ step s, e.text = s.text) {least : Nat} {most : Option Nat} {greedy : Bool}
    {s e : Spot} (h : e ∈ repeats step least most greedy s) : e.text = s.text := by
  obtain ⟨t, ht, h⟩ := List.mem_flatMap.mp h
  rw [text_of_mem_upToTimes hstep h]
  exact text_of_mem_times hstep (by simp) ht

theorem text_of_mem_look {negated : Bool} {s e : Spot} {found : List Spot}
    (h : e ∈ ends.look negated s found) : e.text = s.text := by
  simp only [ends.look] at h
  split at h
  · split at h <;> simp_all
  · obtain ⟨f, -, rfl⟩ := List.mem_map.mp h
    rfl

theorem text_of_mem_ends (r : Regular) : ∀ (s : Spot), ∀ e ∈ r.ends s, e.text = s.text := by
  induction r with
  | empty => simp [ends]
  | char set => exact fun s e h => text_of_mem_next h
  | textStart | textEnd | wordEdge | noWordEdge =>
    intro s e h
    simp only [ends] at h
    split at h <;> simp_all
  | again i =>
    intro s e h
    simp only [ends] at h
    split at h
    · exact text_of_mem_skip h
    · simp at h
  | seq r q hr hq =>
    intro s e h
    obtain ⟨t, ht, h⟩ := List.mem_flatMap.mp h
    rw [hq t e h, hr s t ht]
  | either r q hr hq =>
    intro s e h
    exact (List.mem_append.mp h).elim (hr s e) (hq s e)
  | repeated r least most effort hr =>
    intro s e h
    cases effort with
    | holding =>
      refine text_of_mem_repeats (fun t f hf => ?_) (List.mem_of_mem_take h)
      exact hr t f (List.mem_of_mem_take hf)
    | greedy | lazy => exact text_of_mem_repeats hr h
  | group i r hr =>
    intro s e h
    obtain ⟨t, ht, rfl⟩ := List.mem_map.mp h
    exact hr s t ht
  | settled r hr => exact fun s e h => hr s e (List.mem_of_mem_take h)
  | ahead negated r hr | behind negated r hr => exact fun s e h => text_of_mem_look h
  | ifGroup i r q hr hq =>
    intro s e h
    simp only [ends] at h
    split at h
    · exact hr s e h
    · exact hq s e h

/-- The preferred end of a match from a spot, of those further on if it has to be further on. -/
def end? (r : Regular) (further : Bool) (s : Spot) : Option Spot :=
  (r.ends s).find? fun e => !further || e.after.length < s.after.length

/-- The piece before the next match, and all that follows it; what has no text is a group that has
not matched. -/
def piecesFrom (r : Regular) (before after : Text) (further : Bool) :
    Text × List (Option Text) :=
  match h : r.end? further { before, after } with
  | some e =>
    let rest :=
      if e.after.length < after.length then piecesFrom r e.before e.after false
      else piecesFrom r before after true
    let matched := (List.range r.groupCount).map fun i => e.groups.lookup (i + 1)
    ([], matched ++ some rest.1 :: rest.2)
  | none => match after with
    | [] => ([], [])
    | c :: rest =>
      let (piece, others) := piecesFrom r (c :: before) rest false
      (c :: piece, others)
termination_by (after.length, if further then 0 else 1)
decreasing_by
  · exact .left _ _ ‹_›
  · have := List.find?_some h
    cases further with
    | false => exact .right _ (by simp)
    | true => simp_all; omega
  · exact .left _ _ (by simp)

/-- The pieces of a text between the matches, and between them what the groups have matched. -/
def split (r : Regular) (s : Text) : List (Option Text) :=
  let (piece, others) := r.piecesFrom [] s false
  some piece :: others

end Regular

end DocQuery.Pattern

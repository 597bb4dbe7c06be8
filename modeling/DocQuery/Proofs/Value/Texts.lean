import DocQuery.Value.View

/-!
# Values that are text

Lists that hold only texts (`AllText`), the texts that they hold (`texts`), and which values are the
same key as a text: by `Value.sameKey_text_iff`, the text and the constants that stand for it.
-/

namespace DocQuery

/-- Only texts. -/
def AllText (vs : List Value) : Prop :=
  ∀ v ∈ vs, ∃ t, v = .text t

def texts (vs : List Value) : List Text :=
  vs.filterMap Value.text?

variable {vs : List Value} {t : Text}

theorem allText_map (ts : List Text) : AllText (ts.map .text) := by
  intro v hv
  obtain ⟨t, -, rfl⟩ := List.mem_map.mp hv
  exact ⟨t, rfl⟩

theorem hashable_of_allText (h : AllText vs) : ∀ v ∈ vs, v.isHashable = true := by
  intro v hv
  obtain ⟨t, rfl⟩ := h v hv
  rfl

theorem map_texts (h : AllText vs) : (texts vs).map .text = vs := by
  induction vs with
  | nil => rfl
  | cons v vs ih =>
    obtain ⟨t, rfl⟩ := h v (by simp)
    have hrest := ih fun w hw => h w (by simp [hw])
    show Value.text t :: (texts vs).map .text = _
    rw [hrest]

theorem mem_texts_iff (h : AllText vs) : t ∈ texts vs ↔ Value.text t ∈ vs := by
  have hmem : Value.text t ∈ (texts vs).map Value.text ↔ t ∈ texts vs := by simp
  rw [← hmem, map_texts h]

theorem texts_eq_nil_iff (h : AllText vs) : texts vs = [] ↔ vs = [] := by
  rw [← List.map_eq_nil_iff, map_texts h]

namespace Value

/-- The same key as a text are the text itself and the constants that stand for it. -/
theorem sameKey_text_iff {v : Value} : v.sameKey (text t) = true ↔ v.text? = some t := by
  rw [sameKey_iff]
  have htext : (text t).key = text t := rfl
  rw [htext]
  cases v with
  | text s | member m => simp [key, text?, equalsItself]
  | float x =>
    rw [key]
    split <;> simp [text?]
  | _ => simp [key, text?]

end Value

theorem any_sameKey_text_iff (h : AllText vs) :
    (vs.any fun v => v.sameKey (.text t)) = true ↔ .text t ∈ vs := by
  simp only [List.any_eq_true, Value.sameKey_text_iff]
  constructor
  · rintro ⟨v, hv, ht⟩
    obtain ⟨u, rfl⟩ := h v hv
    obtain rfl : u = t := by simpa [Value.text?] using ht
    exact hv
  · exact fun hv => ⟨_, hv, rfl⟩

theorem any_sameKey_iff_mem_texts (h : AllText vs) :
    (vs.any fun v => v.sameKey (.text t)) = true ↔ t ∈ texts vs :=
  (any_sameKey_text_iff h).trans (mem_texts_iff h).symm

end DocQuery

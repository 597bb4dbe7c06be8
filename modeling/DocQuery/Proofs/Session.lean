import DocQuery.Session

/-!
# Triples for actions on a session

`Run.Triple P a Q E`: from a session with `P`, the action `a` ends with an answer and a session that
have `Q`, or with a fault and a session that has `E`. There is one rule for each action that
`DocQuery.Session` offers and `Triple.bind` for actions one after the other, so that what a step
sends is found out without running it. Most actions keep what holds of the subject and of each call
(`Upholds`). Calls that are sent in turn go out up to the first that the store refuses
(`run_calls`).
-/

namespace DocQuery.Run
variable {σ α β : Type} {P : Session σ → Prop} {Q : α → Session σ → Prop} {E : Session σ → Prop}
  {a : Run σ α}

/-- What an action leaves behind, by its answer or its fault. -/
def Ends (Q : α → Session σ → Prop) (E : Session σ → Prop) : Except Fault α × Session σ → Prop
  | (.ok v, s) => Q v s
  | (.error _, s) => E s

def Triple (P : Session σ → Prop) (a : Run σ α) (Q : α → Session σ → Prop)
    (E : Session σ → Prop) : Prop :=
  ∀ s, P s → Ends Q E (a.run s)

/-- The action keeps `P`, whether or not it fails. -/
abbrev Keeps (P : Session σ → Prop) (a : Run σ α) : Prop :=
  Triple P a (fun _ => P) P

theorem run_bind (a : Run σ α) (f : α → Run σ β) (s : Session σ) :
    (a >>= f).run s = match a.run s with
      | (.ok v, t) => (f v).run t
      | (.error fault, t) => (.error fault, t) := by
  show (a.run >>= ExceptT.bindCont f) s = _
  cases hr : a.run s with
  | mk outcome t =>
    show ExceptT.bindCont f (a.run s).1 (a.run s).2 = _
    rw [hr]
    cases outcome <;> rfl

theorem run_pure (v : α) (s : Session σ) : (pure v : Run σ α).run s = (.ok v, s) := rfl

theorem run_throw (fault : Fault) (s : Session σ) :
    (throw fault : Run σ α).run s = (.error fault, s) := rfl

theorem run_subject (s : Session σ) : subject.run s = (.ok s.subject, s) := rfl

theorem run_setSubject (a : σ) (s : Session σ) :
    (setSubject a).run s = (.ok (), { s with subject := a }) := rfl

theorem run_log (line : Text) (s : Session σ) :
    (log line).run s = (.ok (), { s with logs := s.logs ++ [line] }) := rfl

theorem run_logNamed (before after : Text) (name : Value) (s : Session σ) :
    ∃ logs, (logNamed before name after).run s = (.ok (), { s with logs }) := by
  unfold logNamed
  cases name.plain with
  | ok written => exact ⟨_, run_log _ s⟩
  | error fault => exact ⟨s.logs, rfl⟩

theorem run_orFail (x : Except Fault α) (s : Session σ) : (orFail x).run s = (x, s) := by
  cases x <;> rfl

theorem run_tryCatch (a : Run σ α) (handle : Fault → Run σ α) (s : Session σ) :
    (tryCatch a handle).run s = match a.run s with
      | (.ok v, t) => (.ok v, t)
      | (.error fault, t) => (handle fault).run t := by
  show (ExceptT.tryCatch a handle).run s = _
  rw [ExceptT.tryCatch, ExceptT.run_mk]
  show StateT.bind a.run _ s = _
  rw [StateT.bind]
  show (match a.run s with | (outcome, t) => _) = _
  cases hr : a.run s with
  | mk outcome t => cases outcome <;> rfl

/-- The error with which the store refuses a call, given whether it is the first. -/
def refusal? (failure : Option Failure) (c : Call) (isFirst : Bool) : Option StoreError :=
  (failure.filter (·.strikes c.name isFirst)).map (·.error)

theorem run_call (failure : Option Failure) (c : Call) (s : Session σ) :
    (call failure c).run s = (match refusal? failure c s.calls.isEmpty with
      | some e => .error (.raised e)
      | none => .ok (), { s with calls := s.calls ++ [c] }) := by
  cases failure with
  | none => rfl
  | some f =>
    show (if f.strikes c.name s.calls.isEmpty then throw (.raised f.error)
      else pure () : Run σ Unit).run { s with calls := s.calls ++ [c] } = _
    cases h : f.strikes c.name s.calls.isEmpty <;> simp [refusal?, Option.filter, h] <;> rfl

/-- The calls that go out of some that are sent in turn, given whether the first of them is the
first at all, and the error with which the store refuses one. Nothing follows a refused call. -/
def delivered (failure : Option Failure) : Bool → List Call → List Call × Option StoreError
  | _, [] => ([], none)
  | isFirst, c :: cs =>
    match refusal? failure c isFirst with
    | some e => ([c], some e)
    | none => (c :: (delivered failure false cs).1, (delivered failure false cs).2)

theorem delivered_single (failure : Option Failure) (isFirst : Bool) (c : Call) :
    delivered failure isFirst [c] = ([c], refusal? failure c isFirst) := by
  unfold delivered
  cases refusal? failure c isFirst <;> rfl

theorem delivered_unfailing (isFirst : Bool) (cs : List Call) :
    delivered none isFirst cs = (cs, none) := by
  induction cs generalizing isFirst with
  | nil => rfl
  | cons c cs ih =>
    show (c :: (delivered none false cs).1, (delivered none false cs).2) = _
    rw [ih]

/-- A result, unless the store has refused a call. -/
def unlessRefused : Option StoreError → Except Fault α → Except Fault α
  | some e, _ => .error (.raised e)
  | none, x => x

theorem run_calls (failure : Option Failure) (cs : List Call) (s : Session σ) :
    (cs.forM (call failure)).run s =
      (unlessRefused (delivered failure s.calls.isEmpty cs).2 (.ok ()),
        { s with calls := s.calls ++ (delivered failure s.calls.isEmpty cs).1 }) := by
  induction cs generalizing s with
  | nil =>
    show (.ok (), s) = (Except.ok (), { s with calls := s.calls ++ [] })
    rw [List.append_nil]
  | cons c cs ih =>
    show (call failure c >>= fun _ => cs.forM (call failure)).run s = _
    rw [run_bind, run_call]
    unfold delivered
    cases refusal? failure c s.calls.isEmpty with
    | some e => rfl
    | none =>
      have hlater : (s.calls ++ [c]).isEmpty = false := by simp
      show (cs.forM (call failure)).run { s with calls := s.calls ++ [c] } = _
      rw [ih, hlater, List.append_assoc]
      rfl

theorem run_checkOptionNames {options : Entries} (h : ∀ e ∈ options, e.1.isText = true)
    (s : Session σ) : (checkOptionNames options).run s = (.ok (), s) := by
  rw [checkOptionNames, if_pos (List.all_eq_true.mpr h)]
  rfl

/-- An action whose answer is read off another one's. -/
theorem run_bind_pure (a : Run σ α) (f : α → β) (s : Session σ) :
    (do return f (← a) : Run σ β).run s = ((a.run s).1.map f, (a.run s).2) := by
  rw [run_bind]
  cases a.run s with
  | mk outcome t => cases outcome <;> rfl

theorem run_bind_orFail (a : Run σ α) (f : α → Except Fault β) (s : Session σ) :
    (do orFail (f (← a)) : Run σ β).run s = ((a.run s).1 >>= f, (a.run s).2) := by
  rw [run_bind]
  cases a.run s with
  | mk outcome t =>
    cases outcome with
    | error fault => rfl
    | ok v => exact run_orFail (f v) t

theorem run_andThen (a : Run σ α) (f : σ → σ) (s : Session σ) :
    (andThen a f).run s =
      ((a.run s).1, { (a.run s).2 with subject := f (a.run s).2.subject }) := rfl

/-! ### Triples -/

namespace Triple

theorem weaken {P' : Session σ → Prop} {Q' : α → Session σ → Prop} {E' : Session σ → Prop}
    (h : Triple P a Q E) (hP : ∀ s, P' s → P s) (hQ : ∀ v s, Q v s → Q' v s)
    (hE : ∀ s, E s → E' s) : Triple P' a Q' E' := by
  intro s hs
  have hend := h s (hP s hs)
  cases hr : a.run s with
  | mk outcome t =>
    rw [hr] at hend
    cases outcome with
    | ok v => exact hQ v t hend
    | error fault => exact hE t hend

theorem bind {f : α → Run σ β} {R : β → Session σ → Prop} (ha : Triple P a Q E)
    (hf : ∀ v, Triple (Q v) (f v) R E) : Triple P (a >>= f) R E := by
  intro s hs
  have hend := ha s hs
  rw [run_bind]
  cases hr : a.run s with
  | mk outcome t =>
    rw [hr] at hend
    cases outcome with
    | ok v => exact hf v t hend
    | error fault => exact hend

/-- What the last of some actions ends with, whatever the others did. -/
theorem last {f : α → Run σ β} {R : β → Session σ → Prop}
    (hf : ∀ v, Triple (fun _ => True) (f v) R fun _ => True) :
    Triple (fun _ => True) (a >>= f) R fun _ => True := by
  refine bind (Q := fun _ _ => True) (fun s _ => ?_) hf
  cases a.run s with
  | mk outcome t => cases outcome <;> exact trivial

theorem of_ok {s : Session σ} {v : α} (h : Triple P a Q E) (hs : P s)
    (hv : (a.run s).1 = .ok v) : Q v (a.run s).2 := by
  have hend := h s hs
  cases hr : a.run s with
  | mk outcome t =>
    rw [hr] at hend hv
    obtain rfl : outcome = .ok v := hv
    exact hend

/-- What holds afterwards whether or not the action fails. -/
theorem afterwards {s : Session σ} {R : Session σ → Prop} (h : Triple P a (fun _ => R) R)
    (hs : P s) : R (a.run s).2 := by
  have hend := h s hs
  cases hr : a.run s with
  | mk outcome t =>
    rw [hr] at hend
    cases outcome <;> exact hend

theorem pure {v : α} (h : ∀ s, P s → Q v s) : Triple P (Pure.pure v) Q E := h

theorem throw {fault : Fault} (h : ∀ s, P s → E s) : Triple P (throw fault : Run σ α) Q E := h

theorem subject : Triple P Run.subject (fun a s => P s ∧ a = s.subject) E :=
  fun _ hs => ⟨hs, rfl⟩

theorem setSubject {a : σ} {Q : Unit → Session σ → Prop}
    (h : ∀ s, P s → Q () { s with subject := a }) : Triple P (Run.setSubject a) Q E := h

theorem orFail {x : Except Fault α} (h : ∀ s, P s → E s) :
    Triple P (Run.orFail x) (fun v s => P s ∧ x = .ok v) E := by
  intro s hs
  cases x with
  | ok v => exact ⟨hs, rfl⟩
  | error fault => exact h s hs

theorem log {line : Text} {Q : Unit → Session σ → Prop}
    (h : ∀ s, P s → Q () { s with logs := s.logs ++ [line] }) : Triple P (Run.log line) Q E := h

theorem logNamed {before after : Text} {name : Value} {Q : Unit → Session σ → Prop}
    (h : ∀ s logs, P s → Q () { s with logs }) : Triple P (Run.logNamed before name after) Q E := by
  intro s hs
  obtain ⟨logs, hrun⟩ := run_logNamed before after name s
  rw [hrun]
  exact h s logs hs

/-- A call is on record whether or not it fails. -/
theorem call {failure : Option Failure} {c : Call} {R : Session σ → Prop}
    (h : ∀ s, P s → R { s with calls := s.calls ++ [c] }) :
    Triple P (Run.call failure c) (fun _ => R) R := by
  intro s hs
  cases failure with
  | none => exact h s hs
  | some f =>
    show Ends _ _ ((if f.strikes c.name s.calls.isEmpty then MonadExcept.throw (.raised f.error)
      else Pure.pure () : Run σ Unit).run { s with calls := s.calls ++ [c] })
    split
    · exact h s hs
    · exact h s hs

theorem checkOptionNames {options : Entries} (h : ∀ s, P s → E s) :
    Triple P (Run.checkOptionNames options) (fun _ => P) E := by
  unfold Run.checkOptionNames
  split
  · exact pure fun _ hs => hs
  · exact throw h

theorem tryCatch {handle : Fault → Run σ α} {E' : Session σ → Prop} (ha : Triple P a Q E')
    (hh : ∀ fault, Triple E' (handle fault) Q E) :
    Triple P (MonadExcept.tryCatch a handle) Q E := by
  intro s hs
  have hend := ha s hs
  rw [run_tryCatch]
  cases hr : a.run s with
  | mk outcome t =>
    rw [hr] at hend
    cases outcome with
    | ok v => exact hend
    | error fault => exact hh fault t hend

theorem andThen {f : σ → σ} (h : Triple P a (fun v s => Q v { s with subject := f s.subject })
    fun s => E { s with subject := f s.subject }) : Triple P (Run.andThen a f) Q E := by
  intro s hs
  have hend := h s hs
  rw [run_andThen]
  cases hr : a.run s with
  | mk outcome t =>
    rw [hr] at hend
    cases outcome <;> exact hend

end Triple

/-- The subject has a property, and each call that was sent has another. -/
def Upholds (I : σ → Prop) (C : Call → Prop) (s : Session σ) : Prop :=
  I s.subject ∧ ∀ c ∈ s.calls, C c

/-- The session has this subject; nothing is said of its calls. -/
abbrev Has (a : σ) : Session σ → Prop :=
  Upholds (· = a) fun _ => True

variable {I : σ → Prop} {C : Call → Prop}

theorem upholds_start {a : σ} (h : I a) : Upholds I C { subject := a } :=
  ⟨h, by simp⟩

theorem keeps_bind {f : α → Run σ β} (ha : Keeps P a) (hf : ∀ v, Keeps P (f v)) :
    Keeps P (a >>= f) :=
  .bind ha hf

theorem keeps_pure (v : α) : Keeps P (pure v) :=
  .pure fun _ hs => hs

theorem keeps_throw (fault : Fault) : Keeps P (throw fault : Run σ α) :=
  .throw fun _ hs => hs

theorem keeps_orFail (x : Except Fault α) : Keeps P (orFail x) :=
  (Triple.orFail fun _ hs => hs).weaken (fun _ hs => hs) (fun _ _ hs => hs.1) fun _ hs => hs

/-- The result of a computation, if it has one. -/
theorem keeps_orFail_bind {x : Except Fault α} {f : α → Run σ β}
    (hf : ∀ v, x = .ok v → Keeps P (f v)) : Keeps P (orFail x >>= f) := by
  refine .bind (.orFail fun _ hs => hs) fun v s => ?_
  rintro ⟨hs, hv⟩
  exact hf v hv s hs

theorem keeps_checkOptionNames (options : Entries) : Keeps P (checkOptionNames options) :=
  .checkOptionNames fun _ hs => hs

theorem keeps_log (line : Text) : Keeps (Upholds I C) (log line) :=
  .log fun _ hs => hs

theorem keeps_logNamed (before after : Text) (name : Value) :
    Keeps (Upholds I C) (logNamed before name after) :=
  .logNamed fun _ _ hs => hs

theorem keeps_call {failure : Option Failure} {c : Call} (hc : C c) :
    Keeps (Upholds I C) (call failure c) := by
  refine .call fun s hs => ⟨hs.1, fun d hd => ?_⟩
  rcases List.mem_append.mp hd with hd | hd
  · exact hs.2 d hd
  · exact List.mem_singleton.mp hd ▸ hc

theorem keeps_calls {failure : Option Failure} {cs : List Call} (h : ∀ c ∈ cs, C c) :
    Keeps (Upholds I C) (cs.forM (call failure)) := by
  induction cs with
  | nil => exact keeps_pure ()
  | cons c cs ih =>
    exact keeps_bind (keeps_call (h c (by simp))) fun _ => ih fun d hd => h d (by simp [hd])

theorem keeps_subject_bind {f : σ → Run σ α} (hf : ∀ a, I a → Keeps (Upholds I C) (f a)) :
    Keeps (Upholds I C) (subject >>= f) := by
  refine .bind .subject fun a s => ?_
  rintro ⟨hs, rfl⟩
  exact hf s.subject hs.1 s hs

theorem upholds_setSubject {J : σ → Prop} {a : σ} {R : Session σ → Prop} (h : J a) :
    Triple (Upholds I C) (setSubject a) (fun _ => Upholds J C) R :=
  .setSubject fun _ hs => ⟨h, hs.2⟩

/-- After a change of the subject another property of it may hold. -/
theorem upholds_change {J : σ → Prop} {g : σ → σ} {f : σ → Run σ α} (hg : ∀ a, I a → J (g a))
    (hf : ∀ a, I a → Triple (Upholds J C) (f a) Q E) :
    Triple (Upholds I C) (do let a ← subject; setSubject (g a); f a) Q E := by
  refine .bind .subject fun a s => ?_
  rintro ⟨hs, rfl⟩
  exact Triple.bind (upholds_setSubject (hg _ hs.1)) (fun _ => hf _ hs.1) s hs

end DocQuery.Run

import DocQuery.Connection
import DocQuery.Proofs.Fallible
import DocQuery.Proofs.Session

/-!
# What a step does to the clients

A step of a connection does one of four things to the clients (`Turn`, `turn_run`): it keeps the
client, if there is one, and sends calls only through it; it makes one where there is none; it is
refused one; or it closes the client that is held, which is forgotten even where the store fails to
close it.
-/

namespace DocQuery

open Run

namespace Call

/-- The call asks the store for a client. -/
def makesClient (c : Call) : Bool :=
  c.name == "AsyncIOMotorClient"

def closesClient (c : Call) : Bool :=
  "close ".toList.isPrefixOf c.name.toList

/-- The call asks the server of a client for an answer, or a client for a collection. -/
def usesClient (c : Call) : Bool :=
  ["command", "get_database", "get_collection"].contains c.name

end Call

namespace Connection

variable {c : Connection} {r : Replies} {n : Nat} {o : Outcome}

theorem toList_closingName (n : Nat) :
    (closingName n).toList = "close ".toList ++ Text.decimal n := by
  simp [closingName]

theorem closesClient_closingCall (n : Nat) : (closingCall n).closesClient = true := by
  show "close ".toList.isPrefixOf (closingName n).toList = true
  rw [toList_closingName, List.isPrefixOf_iff_prefix]
  exact List.prefix_append _ _

theorem closesClient_creationCall (c : Connection) : c.creationCall.closesClient = false := by
  show "close ".toList.isPrefixOf "AsyncIOMotorClient".toList = false
  decide

theorem closingName_ne {name : String} (h : ¬ "close ".toList <+: name.toList) :
    closingName n ≠ name := by
  rintro rfl
  rw [toList_closingName] at h
  exact h (List.prefix_append _ _)

theorem makesClient_closingCall (n : Nat) : (closingCall n).makesClient = false :=
  beq_eq_false_iff_ne.mpr (closingName_ne (by decide))

theorem usesClient_closingCall (n : Nat) : (closingCall n).usesClient = false := by
  have hcommand : closingName n ≠ "command" := closingName_ne (by decide)
  have hdatabase : closingName n ≠ "get_database" := closingName_ne (by decide)
  have hcollection : closingName n ≠ "get_collection" := closingName_ne (by decide)
  simp [Call.usesClient, closingCall, hcommand, hdatabase, hcollection]

/-- A call that uses a client neither makes nor closes one. -/
theorem of_usesClient {call : Call} (h : call.usesClient = true) :
    call.makesClient = false ∧ call.closesClient = false := by
  have hname : call.name = "command" ∨ call.name = "get_database" ∨
      call.name = "get_collection" := by simpa [Call.usesClient] using h
  unfold Call.makesClient Call.closesClient
  rcases hname with h | h | h <;> rw [h] <;> decide

/-! ### Steps -/

/-- The call goes through the client that the connection holds. -/
def UsesHeld (c : Connection) (call : Call) : Prop :=
  call.usesClient = true ∧ ∃ n, c.client = some n ∧ call.client = some n

/-- What can come of a step, as far as clients go. -/
inductive Turn (r : Replies) (c : Connection) (o : Outcome) : Prop
  | kept (hs : o.session.subject = c) (hcalls : ∀ call ∈ o.session.calls, c.UsesHeld call)
      (hanswer : ∀ n, o.answer = .ok (.client n) → c.client = some n)
  | made (hc : c.client = none)
      (hs : o.session.subject = { c with client := some (c.created + 1), created := c.created + 1 })
      (hcalls : o.session.calls = [c.creationCall])
      (hr : refusal? r.failure c.creationCall true = none)
      (hanswer : o.answer = .ok (.client (c.created + 1)) ∨ o.answer = .ok .itself)
  | refused (e : StoreError) (hc : c.client = none) (hs : o.session.subject = c)
      (hcalls : o.session.calls = [c.creationCall])
      (hr : refusal? r.failure c.creationCall true = some e)
      (hanswer : o.answer = .error (creationFault (.raised e)))
  | closed (n : Nat) (hc : c.client = some n) (hs : o.session.subject = { c with client := none })
      (hcalls : o.session.calls = [closingCall n]) (hanswer : ∀ m, o.answer ≠ .ok (.client m))

theorem heldClient_eq_ok_iff : c.heldClient = .ok n ↔ c.client = some n := by
  unfold heldClient
  cases c.client <;> simp

theorem keeps_lookUp (name database : Value) :
    Keeps (Upholds (· = c) c.UsesHeld) (lookUp r name database) := by
  refine keeps_subject_bind fun c' hc => ?_
  subst hc
  refine keeps_orFail_bind fun n hn => keeps_bind (keeps_orFail _) fun database => ?_
  have hheld := heldClient_eq_ok_iff.mp hn
  refine keeps_bind (keeps_call ⟨rfl, n, hheld, rfl⟩) fun _ => ?_
  exact keeps_bind (keeps_call ⟨rfl, n, hheld, rfl⟩) fun _ => keeps_pure _

theorem keeps_beginQuery (name database : Value) :
    Keeps (Upholds (· = c) c.UsesHeld) (beginQuery r name database) :=
  keeps_subject_bind fun _ _ => keeps_bind (keeps_orFail _) fun _ =>
    keeps_bind (keeps_lookUp _ _) fun _ => keeps_pure _

theorem keeps_healthCheck : Keeps (Upholds (· = c) c.UsesHeld) (healthCheck r) := by
  refine keeps_subject_bind fun c' hc => ?_
  subst hc
  split
  · exact keeps_pure _
  · next n hn =>
    refine .tryCatch (keeps_bind (keeps_call ⟨rfl, n, hn, rfl⟩) fun _ => keeps_pure _)
      fun fault => ?_
    cases fault with
    | raised e =>
      dsimp only
      split
      · exact keeps_bind (keeps_log _) fun _ => keeps_pure _
      · exact keeps_throw _
    | _ => exact keeps_throw _

theorem run_of_action {α : Type} {step : Step} {a : Run Connection α} {f : α → Answer}
    (h : step.action r = do return f (← a)) :
    step.run r c = ⟨(a.run { subject := c }).1.map f, (a.run { subject := c }).2⟩ := by
  unfold Step.run
  rw [h, run_bind_pure]

/-- A step that keeps the client, if an answer that is a client is the one that is held. -/
theorem turn_of_keeps {step : Step}
    (h : Triple (Upholds (· = c) c.UsesHeld) (step.action r)
      (fun a s => Upholds (· = c) c.UsesHeld s ∧ ∀ n, a = .client n → c.client = some n)
      (Upholds (· = c) c.UsesHeld)) : Turn r c (step.run r c) := by
  have hend := h { subject := c } (upholds_start rfl)
  have hrun : step.run r c = ⟨((step.action r).run { subject := c }).1,
    ((step.action r).run { subject := c }).2⟩ := rfl
  cases ha : (step.action r).run { subject := c } with
  | mk answer s =>
    rw [ha] at hend hrun
    rw [hrun]
    cases answer with
    | ok a => exact .kept hend.1.1 hend.1.2 fun n hn => hend.2 n (Except.ok.inj hn)
    | error fault => exact .kept hend.1 hend.2 fun n hn => nomatch hn

/-- The answer of an action that keeps the client, if it is none. -/
theorem keeps_bind_answer {α : Type} {a : Run Connection α} {f : α → Answer}
    (ha : Keeps (Upholds (· = c) c.UsesHeld) a) (hf : ∀ v n, f v ≠ .client n) :
    Triple (Upholds (· = c) c.UsesHeld) (do return f (← a))
      (fun a s => Upholds (· = c) c.UsesHeld s ∧ ∀ n, a = .client n → c.client = some n)
      (Upholds (· = c) c.UsesHeld) :=
  .bind ha fun v => .pure fun _ hs => ⟨hs, fun n hn => absurd hn (hf v n)⟩

theorem run_connect_held (hc : c.client = some n) :
    (connect r).run { subject := c } = (.ok n, { subject := c }) := by
  rw [connect, run_bind, run_subject]
  simp only [hc]
  rfl

theorem run_connect_none (hc : c.client = none) :
    ∃ logs, (connect r).run { subject := c } =
      if r.driverMissing then (.error (.connection .driverMissing), { subject := c })
      else match refusal? r.failure c.creationCall true with
        | some e =>
          (.error (creationFault (.raised e)), { subject := c, calls := [c.creationCall] })
        | none => (.ok (c.created + 1),
          { subject := { c with client := some (c.created + 1), created := c.created + 1 }
            calls := [c.creationCall], logs }) := by
  rw [connect, run_bind, run_subject]
  simp only [hc]
  rw [create, run_bind, run_subject]
  cases r.driverMissing with
  | true => exact ⟨[], rfl⟩
  | false =>
    simp only [Bool.false_eq_true, if_false, run_bind, run_tryCatch, run_call, run_throw, run_pure,
      List.isEmpty_nil, List.nil_append]
    cases refusal? r.failure c.creationCall true with
    | some e => exact ⟨[], rfl⟩
    | none =>
      simp only [run_setSubject]
      obtain ⟨logs, hlog⟩ := run_logNamed "DEBUG Motor client created (database=" ")" c.database
        { subject := { c with client := some (c.created + 1), created := c.created + 1 }
          calls := [c.creationCall] }
      rw [hlog]
      exact ⟨logs, rfl⟩

/-- Connecting, with an answer that tells of the client or does not. -/
theorem turn_connect {step : Step} {f : Nat → Answer}
    (hstep : step.action r = do return f (← connect r))
    (hf : ∀ n, f n = .client n ∨ f n = .itself) : Turn r c (step.run r c) := by
  rw [run_of_action hstep]
  cases hc : c.client with
  | some n =>
    rw [run_connect_held hc]
    refine .kept rfl (by simp) fun m hm => ?_
    rcases hf n with h | h
    · obtain rfl : n = m := by simpa [Except.map, h] using hm
      exact hc
    · simp [Except.map, h] at hm
  | none =>
    obtain ⟨logs, hconnect⟩ := @run_connect_none c r hc
    rw [hconnect]
    cases r.driverMissing with
    | true => exact .kept rfl (by simp) fun m hm => nomatch hm
    | false =>
      cases hr : refusal? r.failure c.creationCall true with
      | some e => exact .refused e hc rfl rfl hr rfl
      | none =>
        refine .made hc rfl rfl hr ?_
        rcases hf (c.created + 1) with h | h
        · exact .inl (congrArg Except.ok h)
        · exact .inr (congrArg Except.ok h)

theorem run_close_held (hc : c.client = some n) :
    ∃ logs, (close r).run { subject := c } = (match refusal? r.failure (closingCall n) true with
      | some e => .error (.raised e)
      | none => .ok (),
        { subject := { c with client := none }, calls := [closingCall n], logs }) := by
  rw [close, run_bind, run_subject]
  simp only [hc, run_bind, run_setSubject, run_call, run_log, List.isEmpty_nil, List.nil_append]
  cases refusal? r.failure (closingCall n) true with
  | some e => exact ⟨[], rfl⟩
  | none => exact ⟨["DEBUG Motor client closed"], rfl⟩

theorem turn_close {step : Step}
    (hstep : step.action r = do return (fun _ => .value .null) (← close r)) :
    Turn r c (step.run r c) := by
  cases hc : c.client with
  | none =>
    refine turn_of_keeps ?_
    rw [hstep]
    refine .bind (Q := fun _ => Upholds (· = c) c.UsesHeld)
      (keeps_subject_bind fun c' hc' => ?_) fun _ =>
      .pure fun _ hs => ⟨hs, fun n hn => nomatch hn⟩
    subst hc'
    rw [hc]
    exact keeps_pure _
  | some n =>
    obtain ⟨logs, hclose⟩ := @run_close_held c r n hc
    rw [run_of_action hstep, hclose]
    refine .closed n hc rfl rfl fun m hm => ?_
    cases hr : refusal? r.failure (closingCall n) true <;> simp [hr, Except.map] at hm

theorem turn_run (step : Step) (r : Replies) (c : Connection) : Turn r c (step.run r c) := by
  cases step with
  | connect => exact turn_connect rfl fun n => .inl rfl
  | enter => exact turn_connect rfl fun n => .inr rfl
  | leave | close => exact turn_close rfl
  | client =>
    refine turn_of_keeps (.bind .subject fun c' s => ?_)
    rintro ⟨hs, rfl⟩
    refine Triple.bind (.orFail fun _ hs => hs) (fun n => .pure fun t ht => ⟨ht.1, ?_⟩) s hs
    rintro m ⟨⟩
    exact hs.1 ▸ heldClient_eq_ok_iff.mp ht.2
  | databaseName =>
    refine turn_of_keeps (.bind .subject fun c' s => ?_)
    rintro ⟨hs, rfl⟩
    exact keeps_bind_answer (keeps_orFail _) nofun s hs
  | healthCheck => exact turn_of_keeps (keeps_bind_answer keeps_healthCheck nofun)
  | collection name database => exact turn_of_keeps (keeps_bind_answer (keeps_lookUp _ _) nofun)
  | query name database => exact turn_of_keeps (keeps_bind_answer (keeps_beginQuery _ _) nofun)

/-- A client that is held already is the answer to connecting. -/
theorem run_connect_of_held {step : Step} (hstep : step = .connect ∨ step = .enter)
    (hc : c.client = some n) : ∃ a, (step.run r c).answer = .ok a := by
  rcases hstep with rfl | rfl
  · rw [@run_of_action c r _ .connect (connect r) .client rfl, run_connect_held hc]
    exact ⟨_, rfl⟩
  · rw [@run_of_action c r _ .enter (connect r) (fun _ => .itself) rfl, run_connect_held hc]
    exact ⟨_, rfl⟩

theorem client_of_failed_connect {step : Step} {fault : Fault}
    (hstep : step = .connect ∨ step = .enter) (h : (step.run r c).answer = .error fault) :
    (step.run r c).session.subject.client = none := by
  cases hc : c.client with
  | some n =>
    obtain ⟨a, ha⟩ := @run_connect_of_held c r n step hstep hc
    exact nomatch ha.symm.trans h
  | none =>
    cases turn_run step r c with
    | kept hs => rw [hs, hc]
    | made _ _ _ _ hanswer =>
      rcases hanswer with ha | ha <;> exact nomatch ha.symm.trans h
    | refused _ _ hs => rw [hs, hc]
    | closed n hn => exact nomatch hc.symm.trans hn

namespace Turn
variable {call : Call}

theorem client_of_usesClient (h : Turn r c o) (hcall : call ∈ o.session.calls)
    (huse : call.usesClient = true) :
    ∃ n, call.client = some n ∧ c.client = some n ∧ o.session.subject.client = some n := by
  cases h with
  | kept hs hcalls =>
    obtain ⟨-, n, hn, hthrough⟩ := hcalls call hcall
    exact ⟨n, hthrough, hn, by rw [hs, hn]⟩
  | made _ _ hcalls | refused _ _ _ hcalls =>
    rw [hcalls, List.mem_singleton] at hcall
    rw [hcall] at huse
    exact nomatch huse
  | closed n _ _ hcalls =>
    rw [hcalls, List.mem_singleton] at hcall
    rw [hcall, usesClient_closingCall] at huse
    exact nomatch huse

theorem client_of_makesClient (h : Turn r c o) (hcall : call ∈ o.session.calls)
    (hmake : call.makesClient = true) : c.client = none := by
  cases h with
  | kept _ hcalls =>
    rw [(of_usesClient (hcalls call hcall).1).1] at hmake
    exact nomatch hmake
  | made hc | refused _ hc => exact hc
  | closed n _ _ hcalls =>
    rw [hcalls, List.mem_singleton] at hcall
    rw [hcall, makesClient_closingCall] at hmake
    exact nomatch hmake

theorem client_of_answer (h : Turn r c o) (ha : o.answer = .ok (.client n)) :
    o.session.subject.client = some n := by
  cases h with
  | kept hs _ hanswer => rw [hs, hanswer n ha]
  | made _ hs _ _ hanswer =>
    rcases hanswer with hnew | hnew
    · obtain rfl : c.created + 1 = n := by simpa using hnew.symm.trans ha
      rw [hs]
    · exact nomatch hnew.symm.trans ha
  | refused _ _ _ _ _ hanswer => exact nomatch hanswer.symm.trans ha
  | closed _ _ _ _ hanswer => exact absurd ha (hanswer n)

end Turn

end Connection

end DocQuery

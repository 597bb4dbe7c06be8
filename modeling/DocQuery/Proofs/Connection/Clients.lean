import DocQuery.Proofs.Connection.Turns

/-!
# Clients are neither leaked nor used again

A `History` is a connection after some steps, with the calls that it has sent, whatever the store
has replied. The clients that the store has made are counted by the calls for one that it has not
refused; in every history each of them is the one that is held or has been closed, and only once
(`Ledger`). Main statement: `History.clients_balanced`.
-/

namespace DocQuery

open Run

/-- A call that was sent, and whether the store has refused it. -/
structure Sent where
  call : Call
  refused : Bool

namespace Connection

def Outcome.sent (o : Outcome) (failure : Option Failure) : List Sent :=
  o.session.calls.mapIdx fun i c => ⟨c, (refusal? failure c (i == 0)).isSome⟩

/-- How many clients the store has made. -/
def made (sent : List Sent) : Nat :=
  sent.countP fun s => s.call.makesClient && !s.refused

def closings (sent : List Sent) : Nat :=
  sent.countP (·.call.closesClient)

def closingsOf (number : Nat) (sent : List Sent) : Nat :=
  sent.countP fun s => s.call.closesClient && s.call.client == some number

/-- A connection that has come so far by some steps, and the calls that it has sent. -/
inductive History : Connection → List Sent → Prop
  | start (s : Settings) : History (ofSettings s) []
  | step {c : Connection} {sent : List Sent} (h : History c sent) (step : Step) (r : Replies) :
      History (step.run r c).session.subject (sent ++ (step.run r c).sent r.failure)

variable {c : Connection} {r : Replies} {n : Nat} {o : Outcome} {sent : List Sent}
  {failure : Option Failure}

/-- The clients are accounted for: each that was made is held or has been closed, and once. -/
structure Ledger (c : Connection) (sent : List Sent) : Prop where
  made_eq : made sent = c.created
  balance : made sent = closings sent + if c.client.isSome then 1 else 0
  held_eq : ∀ n, c.client = some n → n = c.created
  closed_or_held : ∀ n, closingsOf n sent + (if c.client = some n then 1 else 0) =
    if 0 < n ∧ n ≤ c.created then 1 else 0

theorem made_append (sent more : List Sent) : made (sent ++ more) = made sent + made more :=
  List.countP_append

theorem closings_append (sent more : List Sent) :
    closings (sent ++ more) = closings sent + closings more :=
  List.countP_append

theorem closingsOf_append (n : Nat) (sent more : List Sent) :
    closingsOf n (sent ++ more) = closingsOf n sent + closingsOf n more :=
  List.countP_append

theorem countP_sent_eq_zero {p : Sent → Bool} (h : ∀ call ∈ o.session.calls, ∀ refused,
    p ⟨call, refused⟩ = false) : (o.sent failure).countP p = 0 := by
  rw [List.countP_eq_zero]
  intro s hs
  obtain ⟨i, hi, rfl⟩ := List.mem_mapIdx.mp hs
  simp [h _ (List.getElem_mem hi)]

theorem Ledger.kept (h : c.Ledger sent) (hcalls : ∀ call ∈ o.session.calls, c.UsesHeld call) :
    c.Ledger (sent ++ o.sent failure) := by
  have hnone : ∀ call ∈ o.session.calls, call.makesClient = false ∧ call.closesClient = false :=
    fun call hcall => of_usesClient (hcalls call hcall).1
  have hmade : made (o.sent failure) = 0 :=
    countP_sent_eq_zero fun call hcall _ => by simp [(hnone call hcall).1]
  have hclosings : closings (o.sent failure) = 0 :=
    countP_sent_eq_zero fun call hcall _ => by simp [(hnone call hcall).2]
  have hclosingsOf : ∀ n, closingsOf n (o.sent failure) = 0 := fun n =>
    countP_sent_eq_zero fun call hcall _ => by simp [(hnone call hcall).2]
  obtain ⟨hc, hbalance, hheld, hclosed⟩ := h
  refine ⟨?_, ?_, hheld, fun n => ?_⟩
  · rw [made_append, hmade, Nat.add_zero, hc]
  · rw [made_append, closings_append, hmade, hclosings]
    exact hbalance
  · rw [closingsOf_append, hclosingsOf]
    exact hclosed n

theorem Ledger.creation (h : c.Ledger sent) (hc : c.client = none) (refused : Bool) :
    Ledger (if refused then c else
        { c with client := some (c.created + 1), created := c.created + 1 })
      (sent ++ [⟨c.creationCall, refused⟩]) := by
  have hmade : made [⟨c.creationCall, refused⟩] = if refused then 0 else 1 := by
    cases refused <;> rfl
  have hclosings : closings [⟨c.creationCall, refused⟩] = 0 := by
    simp [closings, closesClient_creationCall]
  have hclosingsOf : ∀ n, closingsOf n [⟨c.creationCall, refused⟩] = 0 := by
    simp [closingsOf, closesClient_creationCall]
  obtain ⟨hcreated, hbalance, hheld, hclosed⟩ := h
  refine ⟨?_, ?_, ?_, fun n => ?_⟩
  · rw [made_append, hmade, hcreated]
    cases refused <;> rfl
  · rw [made_append, closings_append, hmade, hclosings, hbalance, hc]
    cases refused
    · rfl
    · simp [hc]
  · cases refused
    · rintro n ⟨⟩
      rfl
    · exact hheld
  · have hn := hclosed n
    rw [closingsOf_append, hclosingsOf]
    cases refused
    · rw [hc] at hn
      simp only [reduceCtorEq, if_false, Option.some.injEq, Bool.false_eq_true] at hn ⊢
      by_cases hlast : c.created + 1 = n
      · subst hlast
        simp_all
      · have hbefore : n ≤ c.created + 1 ↔ n ≤ c.created := by omega
        simpa only [if_neg hlast, hbefore] using hn
    · exact hn

theorem Ledger.closing (h : c.Ledger sent) (hc : c.client = some n) (refused : Bool) :
    Ledger { c with client := none } (sent ++ [⟨closingCall n, refused⟩]) := by
  have hmade : made [⟨closingCall n, refused⟩] = 0 := by
    simp [made, makesClient_closingCall]
  have hclosings : closings [⟨closingCall n, refused⟩] = 1 := by
    simp [closings, closesClient_closingCall]
  have hclosingsOf : ∀ m, closingsOf m [⟨closingCall n, refused⟩] = if n = m then 1 else 0 := by
    intro m
    have hclient : (closingCall n).client = some n := rfl
    simp only [closingsOf, List.countP_singleton, closesClient_closingCall, hclient, Bool.true_and,
      beq_iff_eq, Option.some.injEq]
  obtain ⟨hcreated, hbalance, -, hclosed⟩ := h
  refine ⟨?_, ?_, by simp, fun m => ?_⟩
  · rw [made_append, hmade, Nat.add_zero, hcreated]
  · rw [made_append, closings_append, hmade, hclosings, hbalance, hc]
    rfl
  · have hm := hclosed m
    rw [hc] at hm
    rw [closingsOf_append, hclosingsOf]
    simp only [Option.some.injEq, reduceCtorEq, if_false] at hm ⊢
    omega

theorem Ledger.step (h : c.Ledger sent) (ho : Turn r c o) :
    o.session.subject.Ledger (sent ++ o.sent r.failure) := by
  cases ho with
  | kept hs hcalls =>
    rw [hs]
    exact h.kept hcalls
  | made hc hs hcalls hr =>
    have hsent : o.sent r.failure = [⟨c.creationCall, false⟩] := by
      simp [Outcome.sent, hcalls, hr]
    rw [hs, hsent]
    exact h.creation hc false
  | refused e hc hs hcalls hr =>
    have hsent : o.sent r.failure = [⟨c.creationCall, true⟩] := by
      simp [Outcome.sent, hcalls, hr]
    rw [hs, hsent]
    exact h.creation hc true
  | closed n hc hs hcalls =>
    have hsent : ∃ refused, o.sent r.failure = [⟨closingCall n, refused⟩] := by
      simp [Outcome.sent, hcalls]
    obtain ⟨refused, hsent⟩ := hsent
    rw [hs, hsent]
    exact h.closing hc refused

theorem History.ledger (h : History c sent) : c.Ledger sent := by
  induction h with
  | start s =>
    refine ⟨rfl, rfl, fun _ => nofun, fun n => ?_⟩
    show 0 + 0 = if 0 < n ∧ n ≤ 0 then 1 else 0
    rw [if_neg (by omega)]
  | step _ step r ih => exact ih.step (turn_run step r _)

/-- The clients that the store has made are the one that is held, which was made last, and those
that have been closed, each once. In the next step, calls go through the client that is held, and a
client is made only where none is. -/
theorem History.clients_balanced (h : History c sent) :
    made sent = closings sent + (if c.client.isSome then 1 else 0) ∧
    (∀ n, closingsOf n sent ≤ 1) ∧
    (∀ n, c.client = some n → n = made sent ∧ closingsOf n sent = 0) ∧
    ∀ (step : Step) (r : Replies), let o := step.run r c
      (∀ call ∈ o.session.calls, call.usesClient = true → ∃ n, call.client = some n ∧
        c.client = some n ∧ o.session.subject.client = some n) ∧
      (∀ call ∈ o.session.calls, call.makesClient = true → c.client = none) ∧
      (∀ n, o.answer = .ok (.client n) → o.session.subject.client = some n) ∧
      (step = .connect ∨ step = .enter → ∀ fault, o.answer = .error fault →
        o.session.subject.client = none) := by
  obtain ⟨hmade, hbalance, hheld, hclosed⟩ := h.ledger
  refine ⟨hbalance, fun n => ?_, fun n hn => ?_, fun step r => ?_⟩
  · have hcount := hclosed n
    have hone : (if 0 < n ∧ n ≤ c.created then 1 else 0) ≤ 1 := by split <;> omega
    omega
  · have hcount := hclosed n
    have hone : (if 0 < n ∧ n ≤ c.created then 1 else 0) ≤ 1 := by split <;> omega
    rw [if_pos hn] at hcount
    exact ⟨by rw [hmade, hheld n hn], by omega⟩
  · have hturn := turn_run step r c
    exact ⟨fun call => hturn.client_of_usesClient, fun call => hturn.client_of_makesClient,
      fun n => hturn.client_of_answer, fun hstep fault => client_of_failed_connect hstep⟩

/-- A first client that is refused, one that fails to be closed, and one after it whose server
does not answer. -/
theorem History.clients_balanced_failed_close :
    let refusing : Replies := { failure := some { error := ⟨.driver, "PyMongoError", "refused"⟩ } }
    ∃ c sent, History c sent ∧ made sent = 2 ∧ closings sent = 1 ∧ c.client = some 2 ∧
      closingsOf 1 sent ≤ 1 ∧ closingsOf 2 sent = 0 ∧
      (Step.healthCheck.run refusing c).session.calls.map (·.client) = [some 2] ∧
      ((Step.close.run refusing c).session.subject.client = none ∧
        ∀ call ∈ (Step.connect.run {} c).session.calls, call.makesClient = false) := by
  intro refusing
  have h :=
    ((((History.start {}).step .connect refusing).step .connect {}).step .close refusing).step
    .enter {}
  obtain ⟨hbalance, honce, hheld, hnext⟩ := h.clients_balanced
  refine ⟨_, _, h, rfl, ?_, rfl, honce 1, (hheld 2 rfl).2, rfl, rfl, fun call hcall => ?_⟩
  · exact (Nat.succ.inj hbalance).symm
  rw [Bool.eq_false_iff]
  exact fun hmake => nomatch (hnext .connect {}).2.1 call hcall hmake

end Connection

end DocQuery

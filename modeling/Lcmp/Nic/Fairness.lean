import Lcmp.Nic.Scheduler

/-!
# Fairness among the queue pairs

`m_qps` holds pointers, so that a queue pair keeps its identity while the clean-up moves it. A run is a
sequence of calls of `GetNextQindex` and `DequeueQindex`, between which the queue pairs and the ACK queue
change in any way but none is added to the group. Between two packets of one queue pair every other that is
eligible all the time sends, as long as the clean-up of a call that finds nothing removes no queue pair up to
`m_rrlast`, which is an index and stays as it is.
-/

namespace Lcmp

open RdmaEgressQueue

variable {ι : Type}

/-- `m_qps` and `m_rrlast`, with what the pointers refer to. A queue pair is in the group once. -/
structure QpGroup (ι : Type) where
  rrlast : Nat
  ackQ : List UInt32
  qps : List ι
  nodup : qps.Nodup
  qp : ι → RdmaQueuePair

namespace QpGroup

/-- The queue as `GetNextQindex` reads it. -/
def queue (g : QpGroup ι) : RdmaEgressQueue where
  rrlast := g.rrlast
  ackQ := g.ackQ
  qps := g.qps.map g.qp

/-- A turn over the pointers. -/
def turn (paused : Queue → Bool) (now : Int) (g : QpGroup ι) : Option Nat × List ι :=
  RoundRobin.turn (eligible paused now ∘ g.qp) (marked paused ∘ g.qp) (RdmaQueuePair.isFinished ∘ g.qp) g.rrlast
    g.qps

theorem turn_nodup (paused : Queue → Bool) (now : Int) (g : QpGroup ι) : (g.turn paused now).2.Nodup :=
  (RoundRobin.turn_cleaned _ _ _ g.rrlast g.qps).sublist.nodup g.nodup

def getNextQindex (paused : Queue → Bool) (now : Int) (g : QpGroup ι) : QIndex × QpGroup ι :=
  if !paused ackQIdx && g.ackQ.length > 0 then (.highPrio, g)
  else
    ((g.turn paused now).1.elim .nothing .qp,
      { g with qps := (g.turn paused now).2, nodup := g.turn_nodup paused now })

variable {hw : RdmaHwConfig} {g g' : QpGroup ι} {paused : Queue → Bool} {now : Int}

/-- The call over the pointers is the call over the queue pairs. -/
theorem getNextQindex_queue (paused : Queue → Bool) (now : Int) (g : QpGroup ι) :
    RdmaEgressQueue.getNextQindex paused now g.queue =
      ((g.getNextQindex paused now).1, (g.getNextQindex paused now).2.queue) := by
  rw [getNextQindex]
  split
  · rename_i hserved
    rw [RdmaEgressQueue.getNextQindex]
    exact if_pos hserved
  · rename_i hskip
    have hack : paused ackQIdx = true ∨ g.queue.ackQ = [] := by
      rw [Bool.and_eq_true, Bool.not_eq_true', decide_eq_true_eq, not_and_or, Bool.not_eq_false] at hskip
      exact hskip.imp_right fun h => List.length_eq_zero_iff.mp (Nat.eq_zero_of_not_pos h)
    have hturn := RoundRobin.turn_map (eligible paused now) (marked paused) RdmaQueuePair.isFinished g.qp g.rrlast
      g.qps
    rw [getNextQindex_turn hack]
    simp only [queue, hturn, turn]

variable [DecidableEq ι]

/-- `DequeueQindex`. Out of bounds there is no result. -/
def dequeueQindex (hw : RdmaHwConfig) (g : QpGroup ι) : QIndex → Option (QpGroup ι)
  | .highPrio =>
      match g.ackQ with
      | [] => none
      | _ :: rest => some { g with ackQ := rest }
  | .qp qIndex =>
      match g.qps[qIndex]? with
      | none => none
      | some p => some { g with
          rrlast := qIndex
          qp := Function.update g.qp p (getNxtPacket hw (g.qp p)).2 }
  | .nothing => some g

end QpGroup

/-- A call, or what happens between calls. -/
inductive GroupEvent (ι : Type) where
  | call (paused : Queue → Bool) (now : Int)
  | update (qp : ι → RdmaQueuePair) (ackQ : List UInt32)

namespace QpGroup

variable [DecidableEq ι] {hw : RdmaHwConfig} {g g' : QpGroup ι} {paused : Queue → Bool} {now : Int}

def groupNext (hw : RdmaHwConfig) (g : QpGroup ι) : GroupEvent ι → Option (QpGroup ι)
  | .call paused now => (g.getNextQindex paused now).2.dequeueQindex hw (g.getNextQindex paused now).1
  | .update qp ackQ => some { g with qp := qp, ackQ := ackQ }

def groupSystem (hw : RdmaHwConfig) (g : QpGroup ι) : System (QpGroup ι) (GroupEvent ι) where
  init := g
  next := groupNext hw

omit [DecidableEq ι] in
/-- The event is a call that sends a packet of `p`. -/
def Dequeues (g : QpGroup ι) (e : GroupEvent ι) (p : ι) : Prop :=
  ∃ paused now idx, e = .call paused now ∧ (g.getNextQindex paused now).1 = .qp idx ∧
    (g.getNextQindex paused now).2.qps[idx]? = some p

/-- `p` is eligible in a call. -/
def EligibleAt (g : QpGroup ι) (p : ι) : GroupEvent ι → Prop
  | .call paused now => eligible paused now (g.qp p) = true
  | .update _ _ => False

/-- The queue pair whose turn it is has not finished, and where no queue pair is eligible, the clean-up has
none to remove up to `m_rrlast`. -/
def Steady (g : QpGroup ι) : GroupEvent ι → Prop
  | .call paused now =>
      AckServed paused g.queue ∨
        (∀ k p, RoundRobin.Picks (eligible paused now ∘ g.qp) g.rrlast g.qps k p → (g.qp p).isFinished = false) ∧
        ((∀ p ∈ g.qps, eligible paused now (g.qp p) = false) →
          ∀ k ≤ g.rrlast, ∀ p, g.qps[k]? = some p → marked paused (g.qp p) = false)
  | .update _ _ => True

/-- In the order of the next turn, `q` comes before `p`. -/
structure Waiting (q p : ι) (g : QpGroup ι) : Prop where
  bound : g.rrlast < g.qps.length
  ahead : RoundRobin.Ahead q p (RoundRobin.cycle g.rrlast g.qps)

/-! ### One event -/

/-- What a call does: it serves the ACK queue, sends a packet of a queue pair, or finds nothing. -/
inductive CallOutcome (hw : RdmaHwConfig) (paused : Queue → Bool) (now : Int) (g : QpGroup ι) : QpGroup ι → Prop where
  | served (rest : List UInt32) (hack : AckServed paused g.queue) :
      CallOutcome hw paused now g { g with ackQ := rest }
  | sent (idx : Nat) (p : ι) (hturn : (g.turn paused now).1 = some idx)
      (hidx : (g.turn paused now).2[idx]? = some p) (hack : ¬ AckServed paused g.queue) :
      CallOutcome hw paused now g { g with
        rrlast := idx
        qps := (g.turn paused now).2
        nodup := g.turn_nodup paused now
        qp := Function.update g.qp p (getNxtPacket hw (g.qp p)).2 }
  | nothing (hturn : (g.turn paused now).1 = none) (hack : ¬ AckServed paused g.queue) :
      CallOutcome hw paused now g { g with
        qps := (g.turn paused now).2
        nodup := g.turn_nodup paused now }

omit [DecidableEq ι] in
theorem served_iff : (!paused ackQIdx && g.ackQ.length > 0) = true ↔ AckServed paused g.queue := by
  rw [Bool.and_eq_true, Bool.not_eq_true', decide_eq_true_eq, gt_iff_lt, List.length_pos_iff]
  exact Iff.rfl

theorem call_outcome (hnext : groupNext hw g (.call paused now) = some g') : CallOutcome hw paused now g g' := by
  simp only [groupNext, getNextQindex] at hnext
  by_cases hack : AckServed paused g.queue
  · simp only [if_pos (served_iff.mpr hack), dequeueQindex] at hnext
    split at hnext
    · cases hnext
    · rw [← Option.some.inj hnext]
      exact .served _ hack
  · simp only [if_neg (mt served_iff.mp hack)] at hnext
    cases hturn : (g.turn paused now).1 with
    | none =>
        simp only [hturn, Option.elim_none, dequeueQindex] at hnext
        rw [← Option.some.inj hnext]
        exact .nothing hturn hack
    | some idx =>
        simp only [hturn, Option.elim_some, dequeueQindex] at hnext
        split at hnext
        · cases hnext
        · rename_i p hidx
          rw [← Option.some.inj hnext]
          exact .sent idx p hturn hidx hack

omit [DecidableEq ι] in
theorem dequeues_iff {p : ι} : Dequeues g (.call paused now) p ↔
    ¬ AckServed paused g.queue ∧ ∃ idx, (g.turn paused now).1 = some idx ∧ (g.turn paused now).2[idx]? = some p := by
  constructor
  · rintro ⟨paused', now', idx, he, hanswer, hidx⟩
    cases he
    rw [getNextQindex] at hanswer hidx
    split at hanswer
    · cases hanswer
    · rename_i hskip
      rw [if_neg hskip] at hidx
      refine ⟨mt served_iff.mpr hskip, idx, ?_, hidx⟩
      cases hturn : (g.turn paused now).1 with
      | none =>
          rw [hturn] at hanswer
          cases hanswer
      | some j =>
          rw [hturn] at hanswer
          cases hanswer
          rfl
  · rintro ⟨hack, idx, hturn, hidx⟩
    refine ⟨paused, now, idx, rfl, ?_, ?_⟩
    · rw [getNextQindex, if_neg (mt served_iff.mp hack), hturn]
      rfl
    · rw [getNextQindex, if_neg (mt served_iff.mp hack)]
      exact hidx

omit [DecidableEq ι] in
theorem Dequeues.unique {e : GroupEvent ι} {p q : ι} (hp : Dequeues g e p) (hq : Dequeues g e q) : p = q := by
  obtain ⟨paused, now, idx, rfl, -⟩ := id hp
  obtain ⟨-, idx, hturn, hidx⟩ := dequeues_iff.mp hp
  obtain ⟨-, idx', hturn', hidx'⟩ := dequeues_iff.mp hq
  obtain rfl := Option.some.inj (hturn.symm.trans hturn')
  exact Option.some.inj (hidx.symm.trans hidx')

/-- Right after a packet of `p`, every other queue pair of the group waits in front of it. -/
theorem waiting_of_dequeues {e : GroupEvent ι} {p q : ι} (hsent : Dequeues g e p)
    (hnext : groupNext hw g e = some g') (hq : q ∈ g'.qps) (hne : q ≠ p) : Waiting q p g' := by
  obtain ⟨paused, now, -, rfl, -⟩ := id hsent
  obtain ⟨hack, idx, hturn, hidx⟩ := dequeues_iff.mp hsent
  cases call_outcome hnext with
  | served rest hserved => exact absurd hserved hack
  | sent idx' p' hturn' hidx' _ =>
      obtain rfl := Option.some.inj (hturn.symm.trans hturn')
      exact ⟨(List.getElem?_eq_some_iff.mp hidx).1,
        RoundRobin.ahead_of_served (g.turn_nodup paused now) hidx hq hne⟩
  | nothing hnone _ =>
      rw [hturn] at hnone
      cases hnone

/-- While `q` waits in front of `p`, a call that sends no packet of `q` sends none of `p`. -/
theorem waiting_step {e : GroupEvent ι} {p q : ι} (hwait : Waiting q p g) (hsteady : Steady g e)
    (hopen : (g.qp q).isFinished = false) (heligible : ∀ r, Dequeues g e r → EligibleAt g q e)
    (hnot : ¬ Dequeues g e q) (hnext : groupNext hw g e = some g') : Waiting q p g' ∧ ¬ Dequeues g e p := by
  cases e with
  | update qp ackQ =>
      rw [← Option.some.inj hnext]
      refine ⟨⟨hwait.bound, hwait.ahead⟩, fun hsent => ?_⟩
      obtain ⟨paused, now, idx, he, -⟩ := hsent
      cases he
  | call paused now =>
      cases call_outcome hnext with
      | served rest hack => exact ⟨⟨hwait.bound, hwait.ahead⟩, fun hsent => (dequeues_iff.mp hsent).1 hack⟩
      | sent idx r hturn hidx hack =>
          have hsent : Dequeues g (.call paused now) r := dequeues_iff.mpr ⟨hack, idx, hturn, hidx⟩
          have hother : r ≠ q := fun h => hnot (h ▸ hsent)
          have hready : (eligible paused now ∘ g.qp) q = true := heligible r hsent
          obtain ⟨hrp, hahead⟩ := hwait.ahead.turn_some (fun _ => isFinished_of_marked) g.nodup hready hopen
            (Prod.ext hturn rfl) (hsteady.resolve_left hack).1 hidx hother
          exact ⟨⟨(List.getElem?_eq_some_iff.mp hidx).1, hahead⟩, fun hp => hrp (hsent.unique hp)⟩
      | nothing hturn hack =>
          have hnone := RoundRobin.turn_none_iff.mp hturn
          obtain ⟨hbound, hahead⟩ := hwait.ahead.turn_none (fun _ => isFinished_of_marked) g.nodup hopen hwait.bound
            (Prod.ext hturn rfl) ((hsteady.resolve_left hack).2 hnone)
          refine ⟨⟨hbound, hahead⟩, fun hsent => ?_⟩
          obtain ⟨-, idx, hsome, -⟩ := dequeues_iff.mp hsent
          rw [hturn] at hsome
          cases hsome

/-! ### Runs -/

/-- Between two packets of `p`, every other queue pair of the group that is unfinished, and eligible in each
call that sends a packet, sends one itself. -/
theorem every_other_dequeued (hw : RdmaHwConfig) {before mid after : List (Transition (QpGroup ι) (GroupEvent ι))}
    {x y : Transition (QpGroup ι) (GroupEvent ι)} {p q : ι}
    (hrun : (groupSystem hw g).Run g (before ++ x :: (mid ++ y :: after)) g')
    (hx : Dequeues x.pre x.label p) (hy : Dequeues y.pre y.label p) (hne : q ≠ p) (hq : q ∈ x.post.qps)
    (hopen : ∀ z ∈ mid ++ [y], (z.pre.qp q).isFinished = false)
    (heligible : ∀ z ∈ mid ++ [y], ∀ r, Dequeues z.pre z.label r → EligibleAt z.pre q z.label)
    (hsteady : ∀ z ∈ mid ++ [y], Steady z.pre z.label) : ∃ z ∈ mid, Dequeues z.pre z.label q := by
  obtain ⟨-, hnextx, hrest⟩ := hrun.of_append_cons
  obtain ⟨hmid, hnexty, -⟩ := hrest.of_append_cons
  by_contra hnone
  have hguard : ∀ z ∈ mid, Steady z.pre z.label ∧ (z.pre.qp q).isFinished = false ∧
      (∀ r, Dequeues z.pre z.label r → EligibleAt z.pre q z.label) ∧ ¬ Dequeues z.pre z.label q := by
    intro z hz
    have hz' := List.mem_append_left [y] hz
    exact ⟨hsteady z hz', hopen z hz', heligible z hz', fun hsent => hnone ⟨z, hz, hsent⟩⟩
  have hwait : Waiting q p y.pre :=
    (hmid.invariant_of_guard (P := Waiting q p)
      (C := fun g e => Steady g e ∧ (g.qp q).isFinished = false ∧
        (∀ r, Dequeues g e r → EligibleAt g q e) ∧ ¬ Dequeues g e q)
      (fun _ _ _ hwait ⟨hsteady, hopen, heligible, hnot⟩ hnext =>
        (waiting_step hwait hsteady hopen heligible hnot hnext).1)
      hguard (waiting_of_dequeues hx hnextx hq hne)).1
  have hlast := List.mem_append_right mid (List.mem_singleton_self y)
  exact (waiting_step hwait (hsteady y hlast) (hopen y hlast) (heligible y hlast)
    (fun hsent => hne (hsent.unique hy)) hnexty).2 hy

omit [DecidableEq ι] in
/-- Where no queue pair has finished, every call is steady. -/
theorem steady_of_unfinished (hopen : ∀ p ∈ g.qps, (g.qp p).isFinished = false) (paused : Queue → Bool) (now : Int) :
    Steady g (.call paused now) := by
  refine .inr ⟨fun k p hpick => ?_, fun _ k _ p hp => ?_⟩
  · exact hopen p (RoundRobin.mem_cycle.mp (List.mem_of_getElem? hpick.visited))
  · rw [marked, hopen p (List.mem_of_getElem? hp), Bool.and_false]

theorem forall_mem_three {α : Type} {P : α → Prop} {a b c : α} (ha : P a) (hb : P b) (hc : P c) :
    ∀ z ∈ [a, b] ++ [c], P z := by
  intro z hz
  simp only [List.cons_append, List.nil_append, List.mem_cons, List.not_mem_nil, or_false] at hz
  rcases hz with rfl | rfl | rfl
  · exact ha
  · exact hb
  · exact hc

/-- The group after an event that has a result. -/
def after (g : QpGroup Nat) (e : GroupEvent Nat) : QpGroup Nat := (groupNext everySegment g e).getD g

/-! ### Three queue pairs in turn -/

def threeFlows : QpGroup Nat where
  rrlast := 0
  ackQ := []
  qps := [0, 1, 2]
  nodup := by decide
  qp := fun _ => plainQp 9000

def callAll : GroupEvent Nat := .call (fun _ => false) 0

def oneServed : QpGroup Nat := after threeFlows callAll

def twoServed : QpGroup Nat := after oneServed callAll

def threeServed : QpGroup Nat := after twoServed callAll

theorem every_other_dequeued_threeFlows :
    ∃ z ∈ [(⟨oneServed, callAll, twoServed⟩ : Transition (QpGroup Nat) (GroupEvent Nat)),
      ⟨twoServed, callAll, threeServed⟩], Dequeues z.pre z.label 2 := by
  have hrun : (groupSystem everySegment threeFlows).Run threeFlows
      ([] ++ ⟨threeFlows, callAll, oneServed⟩ :: ([⟨oneServed, callAll, twoServed⟩, ⟨twoServed, callAll, threeServed⟩] ++
        ⟨threeServed, callAll, after threeServed callAll⟩ :: [])) (after threeServed callAll) :=
    .cons rfl (.cons rfl (.cons rfl (.cons rfl (.nil _))))
  exact every_other_dequeued everySegment hrun (p := 1) ⟨_, _, 1, rfl, rfl, rfl⟩ ⟨_, _, 1, rfl, rfl, rfl⟩
    (by decide) (by decide) (forall_mem_three (by decide) (by decide) (by decide))
    (forall_mem_three (fun _ _ => rfl) (fun _ _ => rfl) (fun _ _ => rfl))
    (forall_mem_three (steady_of_unfinished (by decide) _ _) (steady_of_unfinished (by decide) _ _)
      (steady_of_unfinished (by decide) _ _))

/-! ### A skipped queue pair -/

/-- The first flow completes. -/
def completeFirst : GroupEvent Nat :=
  .update (fun p => if p = 0 then { plainQp 9000 with sndNxt := 9000, sndUna := 9000 } else oneServed.qp p) []

/-- A call while PFC pauses the class of the flows. -/
def callPaused : GroupEvent Nat := .call (fun qIndex => qIndex == 3) 0

def oneCompleted : QpGroup Nat := after oneServed completeFirst

def oneRemoved : QpGroup Nat := after oneCompleted callPaused

/-- The call that finds nothing removes the first queue pair in front of `m_rrlast`, and the second sends
twice in a row while the third is eligible. -/
theorem not_every_other_dequeued :
    ¬ ∀ (before mid after : List (Transition (QpGroup Nat) (GroupEvent Nat)))
      (x y : Transition (QpGroup Nat) (GroupEvent Nat)) (g' : QpGroup Nat) (p q : Nat),
      (groupSystem everySegment threeFlows).Run threeFlows (before ++ x :: (mid ++ y :: after)) g' →
      Dequeues x.pre x.label p → Dequeues y.pre y.label p → (∀ z ∈ mid, ¬ Dequeues z.pre z.label p) → q ≠ p →
      q ∈ x.post.qps → (∀ z ∈ mid ++ [y], (z.pre.qp q).isFinished = false) →
      (∀ z ∈ mid ++ [y], ∀ r, Dequeues z.pre z.label r → EligibleAt z.pre q z.label) →
      ∃ z ∈ mid, Dequeues z.pre z.label q := by
  intro hclaim
  have hrun : (groupSystem everySegment threeFlows).Run threeFlows
      ([] ++ ⟨threeFlows, callAll, oneServed⟩ :: ([⟨oneServed, completeFirst, oneCompleted⟩,
        ⟨oneCompleted, callPaused, oneRemoved⟩] ++ ⟨oneRemoved, callAll, after oneRemoved callAll⟩ :: []))
      (after oneRemoved callAll) := .cons rfl (.cons rfl (.cons rfl (.cons rfl (.nil _))))
  have hupdate : ∀ r, ¬ Dequeues oneServed completeFirst r := by
    rintro r ⟨paused, now, idx, he, -⟩
    cases he
  have hidle : ∀ r, ¬ Dequeues oneCompleted callPaused r := by
    intro r hsent
    obtain ⟨-, idx, hturn, -⟩ := dequeues_iff.mp hsent
    cases hturn
  have hskipped : ∀ z ∈ [(⟨oneServed, completeFirst, oneCompleted⟩ : Transition (QpGroup Nat) (GroupEvent Nat)),
      ⟨oneCompleted, callPaused, oneRemoved⟩], ¬ Dequeues z.pre z.label 1 := by
    intro z hz
    simp only [List.mem_cons, List.not_mem_nil, or_false] at hz
    rcases hz with rfl | rfl
    · exact hupdate 1
    · exact hidle 1
  obtain ⟨z, hz, hsent⟩ := hclaim _ _ _ _ _ _ 1 2 hrun ⟨_, _, 1, rfl, rfl, rfl⟩ ⟨_, _, 0, rfl, rfl, rfl⟩
    hskipped (by decide) (by decide) (forall_mem_three (by decide) (by decide) (by decide))
    (forall_mem_three (fun r h => absurd h (hupdate r)) (fun r h => absurd h (hidle r)) (fun _ _ => rfl))
  simp only [List.mem_cons, List.not_mem_nil, or_false] at hz
  rcases hz with rfl | rfl
  · exact hupdate 2 hsent
  · exact hidle 2 hsent

end QpGroup

end Lcmp

import Lcmp.Lib.RoundRobin
import Lcmp.Transport.QueuePair

/-!
# The egress queue of a host

`RdmaEgressQueue` of `qbb-net-device.cc`: the high-priority queue of ACKs, of which only the sizes of
the packets matter here, and the queue pairs of the NIC. `GetNextQindex` looks for a queue pair in
round-robin order and removes finished ones on the way. Indices are natural numbers: the source keeps
them below the number of queue pairs.
-/

namespace Lcmp

structure RdmaEgressQueue where
  rrlast : Nat
  ackQ : List UInt32
  qps : List RdmaQueuePair

def ackQIdx : Queue := 3

/-- The results -1, an index, and -1024 of `GetNextQindex`. -/
inductive QIndex where
  | highPrio
  | qp (idx : Nat)
  | nothing
  deriving DecidableEq

/-- The test of `GetNextQindex` apart from the time. -/
def canSend (paused : Queue → Bool) (qp : RdmaQueuePair) : Bool :=
  !paused qp.mPg && qp.getBytesLeft > 0 && !qp.isWinBound

namespace RdmaEgressQueue

/-- The indices in the order the loop visits them. -/
def order (rrlast fcount : Nat) : List Nat :=
  (List.range' 1 fcount).map fun qIndex => (qIndex + rrlast) % fcount

/-- The loop over the queue pairs: the index found, if any, and `min_finish_id`. -/
def scan (paused : Queue → Bool) (now : Int) (qps : List RdmaQueuePair) :
    List Nat → Option Nat → Option Nat × Option Nat
  | [], minFinishId => (none, minFinishId)
  | idx :: rest, minFinishId =>
      match qps[idx]? with
      | none => scan paused now qps rest minFinishId
      | some qp =>
          if canSend paused qp then
            if qp.mNextAvail > now then scan paused now qps rest minFinishId
            else (some idx, minFinishId)
          else if qp.isFinished then
            scan paused now qps rest (some (minFinishId.elim idx fun m => if idx < m then idx else m))
          else scan paused now qps rest minFinishId

/-- The clean-up loop from index `i` on: queue pairs that are not finished move up to `nxt`, and `res`
follows the queue pair it denotes. -/
def clearFinished : Option Nat → Nat → Nat → List RdmaQueuePair → Option Nat × List RdmaQueuePair
  | res, _, _, [] => (res, [])
  | res, i, nxt, qp :: rest =>
      if qp.isFinished then clearFinished res (i + 1) nxt rest
      else
        let (res, kept) := clearFinished (if res = some i then some nxt else res) (i + 1) (nxt + 1) rest
        (res, qp :: kept)

def getNextQindex (paused : Queue → Bool) (now : Int) (eq : RdmaEgressQueue) : QIndex × RdmaEgressQueue :=
  if !paused ackQIdx && eq.ackQ.length > 0 then (.highPrio, eq)
  else
    let (res, minFinishId) := scan paused now eq.qps (order eq.rrlast eq.qps.length) none
    match minFinishId with
    | none => (res.elim .nothing .qp, eq)
    | some k =>
        let (res, kept) := clearFinished res (k + 1) k (eq.qps.drop (k + 1))
        (res.elim .nothing .qp, { eq with qps := eq.qps.take k ++ kept })

/-! ### What the loop finds -/

/-- A queue pair whose index the loop records for the clean-up. -/
def marked (paused : Queue → Bool) (qp : RdmaQueuePair) : Bool := !canSend paused qp && qp.isFinished

/-- The queue pairs that are left when no queue pair was found: everything in front of the first
marked one, and behind it what is not finished. -/
def survivors (paused : Queue → Bool) : List RdmaQueuePair → List RdmaQueuePair
  | [] => []
  | qp :: rest =>
      if marked paused qp then rest.filter fun qp => !qp.isFinished
      else qp :: survivors paused rest

theorem mem_of_mem_survivors {paused : Queue → Bool} {qp : RdmaQueuePair} {qps : List RdmaQueuePair}
    (h : qp ∈ survivors paused qps) : qp ∈ qps := by
  induction qps with
  | nil => cases h
  | cons first rest ih =>
      rw [survivors] at h
      split at h
      · exact List.mem_cons_of_mem _ (List.mem_of_mem_filter h)
      · rcases List.mem_cons.mp h with rfl | h
        · exact List.mem_cons_self
        · exact List.mem_cons_of_mem _ (ih h)

variable {paused : Queue → Bool} {now : Int} {qps : List RdmaQueuePair}

/-- The test of `GetNextQindex` with the time. -/
def eligible (paused : Queue → Bool) (now : Int) (qp : RdmaQueuePair) : Bool :=
  canSend paused qp && qp.mNextAvail ≤ now

theorem eligible_iff {qp : RdmaQueuePair} :
    eligible paused now qp = true ↔ canSend paused qp = true ∧ qp.mNextAvail ≤ now := by
  rw [eligible, Bool.and_eq_true, decide_eq_true_eq]

theorem isFinished_of_marked {qp : RdmaQueuePair} (h : marked paused qp = true) : qp.isFinished = true := by
  rw [marked, Bool.and_eq_true] at h
  exact h.2

/-- The loop is the search of a turn. -/
theorem scan_eq_search (todo : List Nat) (m : Option Nat) :
    scan paused now qps todo m = RoundRobin.search (eligible paused now) (marked paused) qps todo m := by
  induction todo generalizing m with
  | nil => rfl
  | cons first rest ih =>
      rw [scan, RoundRobin.search]
      cases qps[first]? with
      | none => exact ih m
      | some qp =>
          simp only [eligible, marked]
          by_cases hsend : canSend paused qp = true
          · by_cases hlater : qp.mNextAvail > now
            · simp only [hsend, if_true, if_pos hlater, Bool.true_and, decide_eq_true_eq,
                if_neg (Int.not_le.mpr hlater), Bool.not_true, Bool.false_and, Bool.false_eq_true, if_false]
              exact ih m
            · simp only [hsend, if_true, if_neg hlater, Bool.true_and, decide_eq_true_eq,
                if_pos (Int.not_lt.mp hlater)]
          · rw [Bool.not_eq_true] at hsend
            simp only [hsend, Bool.false_eq_true, if_false, Bool.false_and, Bool.not_false, Bool.true_and]
            split
            · exact ih _
            · exact ih m

/-- The clean-up loop is the compaction. -/
theorem clearFinished_eq_compact (res : Option Nat) (i nxt : Nat) (qps : List RdmaQueuePair) :
    clearFinished res i nxt qps = RoundRobin.compact RdmaQueuePair.isFinished res i nxt qps := by
  induction qps generalizing res i nxt with
  | nil => rfl
  | cons qp rest ih =>
      rw [clearFinished, RoundRobin.compact]
      split
      · exact ih res (i + 1) nxt
      · simp only [ih]

/-- Unless the ACK queue is served, `GetNextQindex` takes a turn. -/
theorem getNextQindex_turn {eq : RdmaEgressQueue} (hack : paused ackQIdx = true ∨ eq.ackQ = []) :
    getNextQindex paused now eq =
      let turn := RoundRobin.turn (eligible paused now) (marked paused) RdmaQueuePair.isFinished eq.rrlast eq.qps
      (turn.1.elim .nothing .qp, { eq with qps := turn.2 }) := by
  have hskip : ¬ (!paused ackQIdx && eq.ackQ.length > 0) = true := by
    rcases hack with hpaused | hempty
    · simp [hpaused]
    · simp [hempty]
  rw [getNextQindex, if_neg hskip, scan_eq_search, RoundRobin.turn]
  simp only [clearFinished_eq_compact]
  rw [show order eq.rrlast eq.qps.length = RoundRobin.positions eq.rrlast eq.qps.length from rfl]
  cases RoundRobin.search (eligible paused now) (marked paused) eq.qps
    (RoundRobin.positions eq.rrlast eq.qps.length) none with
  | mk res minFinishId =>
  cases minFinishId with
  | none => rfl
  | some k => rfl

/-- A marked queue pair of the group, by its index. -/
def MarkedAt (paused : Queue → Bool) (qps : List RdmaQueuePair) (idx : Nat) : Prop :=
  ∃ qp, qps[idx]? = some qp ∧ marked paused qp = true

theorem staleAt_iff {idx : Nat} :
    RoundRobin.StaleAt (eligible paused now) (marked paused) qps idx ↔ MarkedAt paused qps idx := by
  constructor
  · rintro ⟨qp, hget, hmarked, -⟩
    exact ⟨qp, hget, hmarked⟩
  · rintro ⟨qp, hget, hmarked⟩
    refine ⟨qp, hget, hmarked, ?_⟩
    rw [marked, Bool.and_eq_true, Bool.not_eq_true'] at hmarked
    rw [eligible, hmarked.1, Bool.false_and]

theorem survivors_eq_self (h : ∀ idx, ¬ MarkedAt paused qps idx) : survivors paused qps = qps := by
  induction qps with
  | nil => rfl
  | cons qp rest ih =>
      have hqp : ¬ marked paused qp = true := fun hmarked => h 0 ⟨qp, rfl, hmarked⟩
      rw [survivors, if_neg hqp, ih]
      rintro idx ⟨qp', hget, hmarked⟩
      exact h (idx + 1) ⟨qp', hget, hmarked⟩

theorem survivors_of_least {k : Nat} (hk : MarkedAt paused qps k)
    (hleast : ∀ idx, MarkedAt paused qps idx → k ≤ idx) :
    survivors paused qps = qps.take k ++ (qps.drop (k + 1)).filter fun qp => !qp.isFinished := by
  induction qps generalizing k with
  | nil =>
      obtain ⟨qp, hget, -⟩ := hk
      cases hget
  | cons qp rest ih =>
      rw [survivors]
      cases k with
      | zero =>
          obtain ⟨qp', hget, hmarked⟩ := hk
          obtain rfl := Option.some.inj hget
          rw [if_pos hmarked]
          rfl
      | succ k =>
          have hqp : ¬ marked paused qp = true := by
            intro hmarked
            have hzero := hleast 0 ⟨qp, rfl, hmarked⟩
            omega
          rw [if_neg hqp, ih hk]
          · rfl
          · rintro idx ⟨qp', hget, hmarked⟩
            have hle := hleast (idx + 1) ⟨qp', hget, hmarked⟩
            omega

/-! ### The three results -/

/-- What `GetNextQindex` can answer. -/
inductive NextOutcome (paused : Queue → Bool) (now : Int) (eq : RdmaEgressQueue) :
    QIndex → RdmaEgressQueue → Prop where
  | highPrio (hpaused : paused ackQIdx = false) (hackQ : eq.ackQ ≠ []) :
      NextOutcome paused now eq .highPrio eq
  | qp {idx : Nat} {eq' : RdmaEgressQueue} {qp : RdmaQueuePair} (hmem : qp ∈ eq.qps)
      (hsend : canSend paused qp = true) (havail : qp.mNextAvail ≤ now) :
      NextOutcome paused now eq (.qp idx) eq'
  | nothing (hack : paused ackQIdx = true ∨ eq.ackQ = [])
      (hwait : ∀ qp ∈ eq.qps, canSend paused qp = true → now < qp.mNextAvail) :
      NextOutcome paused now eq .nothing { eq with qps := survivors paused eq.qps }

theorem getNextQindex_outcome (paused : Queue → Bool) (now : Int) (eq : RdmaEgressQueue) :
    NextOutcome paused now eq (getNextQindex paused now eq).1 (getNextQindex paused now eq).2 := by
  by_cases hack : paused ackQIdx = true ∨ eq.ackQ = []
  · rw [getNextQindex_turn hack]
    cases hturn : RoundRobin.turn (eligible paused now) (marked paused) RdmaQueuePair.isFinished eq.rrlast eq.qps with
    | mk res kept =>
    cases res with
    | some idx =>
        obtain ⟨k, qp, hpick, -⟩ := RoundRobin.turn_some hturn
        have hmem := RoundRobin.mem_cycle.mp (List.mem_of_getElem? hpick.visited)
        obtain ⟨hsend, havail⟩ := eligible_iff.mp hpick.isReady
        exact .qp hmem hsend havail
    | none =>
        have hwait : ∀ qp ∈ eq.qps, canSend paused qp = true → now < qp.mNextAvail := by
          intro qp hqp hsend
          have hnot := RoundRobin.turn_none_iff.mp (congrArg Prod.fst hturn) qp hqp
          by_contra hearly
          rw [eligible_iff.mpr ⟨hsend, Int.not_lt.mp hearly⟩] at hnot
          cases hnot
        have hnothing := NextOutcome.nothing hack hwait
        rcases RoundRobin.turn_nothing hturn with ⟨hkept, hnone⟩ | ⟨k, hk, hleast, hkept⟩
        · rw [survivors_eq_self fun idx hmarked => hnone idx (staleAt_iff.mpr hmarked)] at hnothing
          rw [hkept]
          exact hnothing
        · rw [survivors_of_least (staleAt_iff.mp hk) fun idx hmarked =>
            hleast idx (staleAt_iff.mpr hmarked)] at hnothing
          rw [hkept]
          exact hnothing
  · rw [not_or, Bool.not_eq_true] at hack
    have hserved : (!paused ackQIdx && eq.ackQ.length > 0) = true := by
      rw [hack.1, Bool.not_false, Bool.true_and, decide_eq_true_eq]
      exact List.length_pos_iff.mpr hack.2
    rw [getNextQindex, if_pos hserved]
    exact .highPrio hack.1 hack.2

end RdmaEgressQueue

end Lcmp

import Lcmp.Nic.Wakeup
import Mathlib.Data.List.FinRange

/-!
# The choice of a queue pair

What `GetNextQindex` promises, with the queue pairs named by their indices before the clean-up. It keeps the
promise unless the queue pair whose turn it is has finished and still has bytes left to send, which happens
when an ACK completes a flow after a NACK rolled `snd_nxt` back.
-/

namespace Lcmp

namespace RdmaEgressQueue

/-- The `k`-th index of a round, counted from the one after `m_rrlast`. -/
def turnIndex (eq : RdmaEgressQueue) (k : Nat) : Nat := (k + (eq.rrlast + 1)) % eq.qps.length

/-- The queue pair at `i` is the first eligible one after `m_rrlast`. -/
def FirstEligible (paused : Queue → Bool) (now : Int) (eq : RdmaEgressQueue) (i : Fin eq.qps.length) : Prop :=
  ∃ k, i.val = eq.turnIndex k ∧ eligible paused now (eq.qps.get i) = true ∧
    ∀ j < k, ∀ qp, eq.qps[eq.turnIndex j]? = some qp → eligible paused now qp = false

/-- The ACK queue is served. -/
def AckServed (paused : Queue → Bool) (eq : RdmaEgressQueue) : Prop := paused ackQIdx = false ∧ eq.ackQ ≠ []

/-- `kept` are the indices before the clean-up of what it leaves, in their order. -/
structure CleanUp (eq eq' : RdmaEgressQueue) (kept : List (Fin eq.qps.length)) : Prop where
  rrlast : eq'.rrlast = eq.rrlast
  ackQ : eq'.ackQ = eq.ackQ
  qps : eq'.qps = kept.map eq.qps.get
  order : kept.Pairwise (· < ·)
  unfinished : ∀ i, (eq.qps.get i).isFinished = false → i ∈ kept

/-- What a call promises. -/
structure NextSpec (paused : Queue → Bool) (now : Int) (eq : RdmaEgressQueue) (answer : QIndex)
    (eq' : RdmaEgressQueue) : Prop where
  highPrio : answer = .highPrio ↔ AckServed paused eq
  nothing : ¬ AckServed paused eq → (answer = .nothing ↔ ∀ qp ∈ eq.qps, eligible paused now qp = false)
  qp : ∃ kept, CleanUp eq eq' kept ∧ ∀ idx, answer = .qp idx → ∃ i, kept[idx]? = some i ∧
    FirstEligible paused now eq i ∧ (eq.qps.get i).isFinished = false

variable {paused : Queue → Bool} {now : Int} {eq : RdmaEgressQueue}

theorem CleanUp.refl (eq : RdmaEgressQueue) : CleanUp eq eq (List.finRange eq.qps.length) where
  rrlast := rfl
  ackQ := rfl
  qps := (List.map_get_finRange eq.qps).symm
  order := List.pairwise_lt_finRange _
  unfinished := fun i _ => List.mem_finRange i

theorem FirstEligible.unique {i i' : Fin eq.qps.length} (h : FirstEligible paused now eq i)
    (h' : FirstEligible paused now eq i') : i = i' := by
  obtain ⟨k, hi, hsend, hearlier⟩ := h
  obtain ⟨k', hi', hsend', hearlier'⟩ := h'
  have hget : ∀ i : Fin eq.qps.length, eq.qps[i.val]? = some (eq.qps.get i) := fun i =>
    List.getElem?_eq_getElem i.isLt
  rcases Nat.lt_trichotomy k k' with hlt | heq | hgt
  · have hnot := hearlier' k hlt _ (by rw [← hi, hget])
    rw [hsend] at hnot
    cases hnot
  · rw [heq, ← hi'] at hi
    exact Fin.ext hi
  · have hnot := hearlier k' hgt _ (by rw [← hi', hget])
    rw [hsend'] at hnot
    cases hnot

/-! ### A turn over the indices -/

/-- The turn of `GetNextQindex`, with the queue pairs named by their indices. -/
def turnIndices (paused : Queue → Bool) (now : Int) (eq : RdmaEgressQueue) :
    Option Nat × List (Fin eq.qps.length) :=
  RoundRobin.turn (eligible paused now ∘ eq.qps.get) (marked paused ∘ eq.qps.get)
    (RdmaQueuePair.isFinished ∘ eq.qps.get) eq.rrlast (List.finRange eq.qps.length)

theorem getNextQindex_turnIndices (hack : ¬ AckServed paused eq) :
    getNextQindex paused now eq = ((turnIndices paused now eq).1.elim .nothing .qp,
      { eq with qps := (turnIndices paused now eq).2.map eq.qps.get }) := by
  have hskip : paused ackQIdx = true ∨ eq.ackQ = [] := by
    rw [AckServed, not_and_or, Bool.not_eq_false, not_not] at hack
    exact hack
  have hturn := RoundRobin.turn_map (eligible paused now) (marked paused) RdmaQueuePair.isFinished eq.qps.get
    eq.rrlast (List.finRange eq.qps.length)
  rw [List.map_get_finRange] at hturn
  rw [getNextQindex_turn hskip, hturn]
  rfl

theorem turnIndices_cleanUp (paused : Queue → Bool) (now : Int) (eq : RdmaEgressQueue) : CleanUp eq { eq with qps := (turnIndices paused now eq).2.map eq.qps.get }
    (turnIndices paused now eq).2 := by
  have hcleaned := RoundRobin.turn_cleaned (eligible paused now ∘ eq.qps.get) (marked paused ∘ eq.qps.get)
    (RdmaQueuePair.isFinished ∘ eq.qps.get) eq.rrlast (List.finRange eq.qps.length)
  refine ⟨rfl, rfl, rfl, (List.pairwise_lt_finRange _).sublist hcleaned.sublist, fun i hopen => ?_⟩
  exact hcleaned.mem (fun _ => isFinished_of_marked) (List.mem_finRange i) hopen

theorem firstEligible_of_picks {k : Nat} {i : Fin eq.qps.length}
    (h : RoundRobin.Picks (eligible paused now ∘ eq.qps.get) eq.rrlast (List.finRange eq.qps.length) k i) :
    FirstEligible paused now eq i := by
  obtain ⟨hk, -⟩ := List.getElem?_eq_some_iff.mp h.visited
  rw [RoundRobin.cycle, List.length_rotate, List.length_finRange] at hk
  have hat : ∀ j < eq.qps.length, ∀ i, (RoundRobin.cycle eq.rrlast (List.finRange eq.qps.length))[j]? = some i ↔
      i.val = eq.turnIndex j := by
    intro j hj i
    have hlt : eq.turnIndex j < eq.qps.length := Nat.mod_lt _ (Nat.zero_lt_of_lt hj)
    rw [RoundRobin.getElem?_cycle (by rwa [List.length_finRange]), List.length_finRange,
      List.getElem?_eq_getElem (by rw [List.length_finRange]; exact hlt), List.getElem_finRange]
    simp only [Option.some.injEq, Fin.ext_iff, turnIndex]
    exact eq_comm
  refine ⟨k, (hat k hk i).mp h.visited, h.isReady, fun j hj qp hqp => ?_⟩
  obtain ⟨hlt, hget⟩ := List.getElem?_eq_some_iff.mp hqp
  have hvisited := (hat j (Nat.lt_trans hj hk) ⟨_, hlt⟩).mpr rfl
  obtain ⟨hlen, hvisited⟩ := List.getElem?_eq_some_iff.mp hvisited
  have hmem := List.mem_take_iff_getElem.mpr ⟨j, Nat.lt_min.mpr ⟨hj, hlen⟩, hvisited⟩
  rw [← hget]
  exact h.earlier _ hmem

theorem turnIndices_none_iff (paused : Queue → Bool) (now : Int) (eq : RdmaEgressQueue) :
    (turnIndices paused now eq).1 = none ↔ ∀ qp ∈ eq.qps, eligible paused now qp = false := by
  rw [turnIndices, RoundRobin.turn_none_iff]
  constructor
  · intro h qp hqp
    obtain ⟨i, rfl⟩ := List.get_of_mem hqp
    exact h i (List.mem_finRange i)
  · intro h i _
    exact h _ (List.get_mem eq.qps i)

/-- A call that takes a turn keeps the promise where the queue pair whose turn it is has not finished. -/
theorem nextSpec_of_unfinished (hack : ¬ AckServed paused eq)
    (hopen : ∀ i, FirstEligible paused now eq i → (eq.qps.get i).isFinished = false) :
    NextSpec paused now eq (getNextQindex paused now eq).1 (getNextQindex paused now eq).2 := by
  rw [getNextQindex_turnIndices hack]
  cases hturn : turnIndices paused now eq with
  | mk res kept =>
  have hnone := turnIndices_none_iff paused now eq
  have hclean := turnIndices_cleanUp paused now eq
  rw [hturn] at hnone hclean
  cases res with
  | none =>
      refine ⟨⟨fun h => ?_, fun h => absurd h hack⟩, fun _ => ⟨fun _ => hnone.mp rfl, fun _ => rfl⟩,
        kept, hclean, fun idx h => ?_⟩
      · cases h
      · cases h
  | some idx =>
      obtain ⟨k, i, hpick, htracks⟩ := RoundRobin.turn_some hturn
      have hfirst := firstEligible_of_picks hpick
      obtain ⟨front, back, -, -, front', back', hkept, hidx, -, -⟩ := htracks (hopen i hfirst)
      refine ⟨⟨fun h => ?_, fun h => absurd h hack⟩, fun _ => ⟨fun h => ?_, fun h => ?_⟩, kept, hclean,
        fun idx' h => ⟨i, ?_, hfirst, hopen i hfirst⟩⟩
      · cases h
      · cases h
      · cases hnone.mpr h
      · cases h
        obtain rfl := Option.some.inj hidx
        rw [hkept, List.getElem?_append_right (Nat.le_refl _), Nat.sub_self]
        rfl

theorem nextSpec_of_ackServed (now : Int) (hack : AckServed paused eq) :
    NextSpec paused now eq (getNextQindex paused now eq).1 (getNextQindex paused now eq).2 := by
  have hserved : (!paused ackQIdx && eq.ackQ.length > 0) = true := by
    rw [hack.1, Bool.not_false, Bool.true_and, decide_eq_true_eq]
    exact List.length_pos_iff.mpr hack.2
  rw [getNextQindex, if_pos hserved]
  refine ⟨⟨fun _ => hack, fun _ => rfl⟩, fun h => absurd hack h, _, CleanUp.refl eq, fun idx h => ?_⟩
  cases h

/-- A call keeps its promise exactly where it serves the ACK queue or the queue pair whose turn it is has
not finished. -/
theorem nextSpec_iff :
    NextSpec paused now eq (getNextQindex paused now eq).1 (getNextQindex paused now eq).2 ↔
      AckServed paused eq ∨ ∀ i, FirstEligible paused now eq i → (eq.qps.get i).isFinished = false := by
  by_cases hack : AckServed paused eq
  · exact ⟨fun _ => .inl hack, fun _ => nextSpec_of_ackServed now hack⟩
  · refine ⟨fun h => .inr fun i hfirst => ?_, fun h => nextSpec_of_unfinished hack (h.resolve_left hack)⟩
    obtain ⟨kept, -, hqp⟩ := h.qp
    cases hanswer : (getNextQindex paused now eq).1 with
    | highPrio => exact absurd (h.highPrio.mp hanswer) hack
    | nothing =>
        obtain ⟨k, -, hsend, -⟩ := hfirst
        rw [(h.nothing hack).mp hanswer _ (List.get_mem eq.qps i)] at hsend
        cases hsend
    | qp idx =>
        obtain ⟨i', -, hfirst', hopen⟩ := hqp idx hanswer
        rw [hfirst.unique hfirst']
        exact hopen

end RdmaEgressQueue

/-! ### Finished queue pairs with bytes left -/

namespace RdmaQueuePair

/-- A finished queue pair has nothing left to send. -/
def Sent (qp : RdmaQueuePair) : Prop := qp.isFinished = true → qp.getBytesLeft = 0

theorem sent_congr {qp qp' : RdmaQueuePair} (hsize : qp'.mSize = qp.mSize) (hnxt : qp'.sndNxt = qp.sndNxt)
    (huna : qp'.sndUna = qp.sndUna) (h : qp.Sent) : qp'.Sent := by
  rw [Sent, isFinished, getBytesLeft, hsize, hnxt, huna]
  exact h

theorem sent_of_le {qp : RdmaQueuePair} (h : qp.mSize ≤ qp.sndNxt) : qp.Sent := by
  intro _
  rw [← UInt64.toNat_inj, getBytesLeft_toNat, UInt64.toNat_zero, Nat.sub_eq_zero_iff_le]
  exact UInt64.le_iff_toNat_le.mp h

theorem sent_start {qp : RdmaQueuePair} (huna : qp.sndUna = 0) (hnxt : qp.sndNxt = 0) : qp.Sent := by
  intro hfinished
  rw [isFinished, decide_eq_true_eq, huna, ← hnxt] at hfinished
  exact sent_of_le hfinished (decide_eq_true (by rw [huna, ← hnxt]; exact hfinished))

/-- A packet leaves a finished queue pair without bytes as it is. -/
theorem sent_getNxtPacket (hw : RdmaHwConfig) {qp : RdmaQueuePair} (h : qp.Sent) :
    ((getNxtPacket hw qp).2).Sent := by
  intro hfinished
  have hleft := h hfinished
  have hnxt : (getNxtPacket hw qp).2.sndNxt = qp.sndNxt := by
    simp only [getNxtPacket, hleft]
    have hzero : (if hw.mMtu < UInt64.toUInt32 0 then hw.mMtu else UInt64.toUInt32 0) = 0 :=
      if_neg (UInt32.not_lt.mpr UInt32.zero_le)
    rw [hzero]
    exact UInt64.add_zero _
  rw [getBytesLeft, hnxt]
  exact hleft

/-- An acknowledgement that does not complete a flow with bytes left. -/
theorem sent_receiveAck {hw : RdmaHwConfig} {qp qp' : RdmaQueuePair} {frame : AckFrame} {finished : Bool}
    (hopen : qp.isFinished = false) (h : receiveAck hw frame qp = some (qp', finished))
    (htimely : qp.mSize.toNat ≤ (ackValue hw frame.seq).toNat → frame.isNack = true ∨ qp.mSize ≤ qp.sndNxt) :
    qp'.Sent := by
  have hrolled : ∀ qp : RdmaQueuePair, (recoverQueue qp).Sent := fun qp hfinished =>
    sent_of_le (of_decide_eq_true hfinished) hfinished
  have hopen' : qp.sndUna.toNat < qp.mSize.toNat := by
    rw [← Nat.not_le, ← isFinished_iff, hopen]
    decide
  rw [receiveAck] at h
  split at h
  · obtain ⟨rfl, -⟩ := Prod.mk.inj (Option.some.inj h)
    rw [settle]
    split
    · exact hrolled qp
    · intro hfinished
      rw [hopen] at hfinished
      cases hfinished
  · split at h
    · cases h
    · obtain ⟨rfl, -⟩ := Prod.mk.inj (Option.some.inj h)
      rw [settle]
      split
      · exact hrolled _
      · rename_i hack
        intro hfinished
        have hacked := (isFinished_iff _).mp hfinished
        rw [acknowledge_toNat, (acknowledge_sndNxt _ _).2, UInt32.toNat_toUInt64] at hacked
        have hsent := (htimely (by omega)).resolve_left hack
        refine sent_of_le ?_ hfinished
        rw [(acknowledge_sndNxt _ _).1, (acknowledge_sndNxt _ _).2]
        exact hsent

end RdmaQueuePair

open RdmaQueuePair RdmaEgressQueue QbbNetDevice

variable {cfg : NicConfig} {dev dev' : QbbNetDevice}

/-- Where an ACK completes a flow, all of it is sent: `snd_nxt` is not rolled back below `m_size`. -/
def TimelyAck (cfg : NicConfig) (dev : QbbNetDevice) : NicEvent → Prop
  | .recvAck i frame _ => ∀ qp, dev.rdmaEQ.qps[i]? = some qp →
      qp.mSize.toNat ≤ (ackValue cfg.hw frame.seq).toNat → frame.isNack = true ∨ qp.mSize ≤ qp.sndNxt
  | _ => True

def AllSent (dev : QbbNetDevice) : Prop := ∀ qp ∈ dev.rdmaEQ.qps, qp.Sent

theorem sent_pktSent (cfg : NicConfig) (now : Int) (size : UInt32) {qp : RdmaQueuePair} (h : qp.Sent) :
    (pktSent cfg now size qp).Sent := sent_congr rfl rfl rfl h

theorem allSent_set {qps : List RdmaQueuePair} {i : Nat} {qp : RdmaQueuePair} (h : ∀ q ∈ qps, q.Sent)
    (hqp : qp.Sent) : ∀ q ∈ qps.set i qp, q.Sent := by
  intro q hmem
  rcases List.mem_or_eq_of_mem_set hmem with hmem | rfl
  · exact h q hmem
  · exact hqp

theorem updateNextAvail_rdmaEQ (t : Int) (dev : QbbNetDevice) : (dev.updateNextAvail t).rdmaEQ = dev.rdmaEQ := by
  rw [updateNextAvail]
  split
  · rfl
  · split
    · rfl
    · rfl

theorem allSent_updateRate (i : Nat) (update : RateUpdate) (h : AllSent dev) :
    AllSent (updateRate cfg i dev update) := by
  cases update with
  | changeRate rate =>
      simp only [updateRate, changeRate]
      split
      · exact h
      · rename_i qp hqp
        rw [AllSent, updateNextAvail_rdmaEQ]
        exact allSent_set h (sent_congr rfl rfl rfl (h qp (List.mem_of_getElem? hqp)))
  | setRate rate =>
      intro qp hqp
      obtain ⟨j, hj, hget⟩ := List.getElem_of_mem hqp
      simp only [updateRate, setQps] at hj hget
      rw [List.getElem_modify] at hget
      rw [List.length_modify] at hj
      have hold := h _ (List.getElem_mem hj)
      split at hget
      · rw [← hget]
        exact sent_congr rfl rfl rfl hold
      · rw [← hget]
        exact hold

theorem allSent_updateRates (i : Nat) (updates : List RateUpdate) (h : AllSent dev) :
    AllSent (updates.foldl (updateRate cfg i) dev) := by
  induction updates generalizing dev with
  | nil => exact h
  | cons update rest ih => exact ih (allSent_updateRate i update h)

theorem allSent_nicEffect {e : NicEvent} (h : AllSent dev) (htimely : TimelyAck cfg dev e)
    (heffect : nicEffect cfg dev e = some dev') : AllSent dev' := by
  cases e with
  | attach | takeDown | sendAck | triggerTransmit =>
      rw [← Option.some.inj heffect]
      exact h
  | newQp qp =>
      rw [← Option.some.inj heffect]
      intro qp' hqp'
      rcases List.mem_append.mp hqp' with hold | hnew
      · exact h qp' hold
      · rw [List.mem_singleton.mp hnew]
        exact sent_start rfl rfl
  | recvAck i frame updates =>
      simp only [nicEffect] at heffect
      split at heffect
      · cases heffect
      · rename_i qp hqp
        split at heffect
        · cases heffect
        · rename_i hopen
          split at heffect
          · cases heffect
          · rename_i qp' finished hack
            rw [← Option.some.inj heffect]
            apply allSent_updateRates
            exact allSent_set h (sent_receiveAck (Bool.eq_false_iff.mpr hopen) hack (htimely qp hqp))
  | rateTimer i update =>
      rw [← Option.some.inj heffect]
      exact allSent_updateRate i update h
  | pause | resume | advance | transmitComplete | nextSend =>
      simp only [nicEffect] at heffect
      split at heffect
      · rw [← Option.some.inj heffect]
        exact h
      · cases heffect

theorem allSent_cleanUp {eq eq' : RdmaEgressQueue} {kept : List (Fin eq.qps.length)} (h : ∀ qp ∈ eq.qps, qp.Sent)
    (hclean : CleanUp eq eq' kept) : ∀ qp ∈ eq'.qps, qp.Sent := by
  intro qp hqp
  rw [hclean.qps] at hqp
  obtain ⟨i, -, rfl⟩ := List.mem_map.mp hqp
  exact h _ (List.get_mem eq.qps i)

/-- What is left of the queue pairs after a call. -/
theorem getNextQindex_cleanUp (paused : Queue → Bool) (now : Int) (eq : RdmaEgressQueue) :
    ∃ kept, CleanUp eq (getNextQindex paused now eq).2 kept := by
  by_cases hack : AckServed paused eq
  · obtain ⟨kept, hclean, -⟩ := (nextSpec_of_ackServed now hack).qp
    exact ⟨kept, hclean⟩
  · rw [getNextQindex_turnIndices hack]
    exact ⟨_, turnIndices_cleanUp paused now eq⟩

theorem allSent_dequeueAndTransmit (h : AllSent dev) (hnext : dev.dequeueAndTransmit cfg = some dev') :
    AllSent dev' := by
  obtain ⟨kept, hclean⟩ := getNextQindex_cleanUp dev.paused dev.now dev.rdmaEQ
  have hleft := allSent_cleanUp h hclean
  rw [dequeueAndTransmit] at hnext
  split at hnext
  · rw [← Option.some.inj hnext]
    exact h
  · split at hnext
    · rw [← Option.some.inj hnext]
      exact h
    · generalize dev.rdmaEQ.getNextQindex dev.paused dev.now = answer at hnext hleft
      obtain ⟨qIndex, eq⟩ := answer
      cases qIndex with
      | highPrio =>
          dsimp only at hnext
          split at hnext
          · cases hnext
          · rw [← Option.some.inj hnext]
            exact hleft
      | qp qIndex =>
          dsimp only at hnext
          split at hnext
          · cases hnext
          · rename_i lastQp hlast
            rw [← Option.some.inj hnext]
            have hsent := sent_getNxtPacket cfg.hw (hleft lastQp (List.mem_of_getElem? hlast))
            exact allSent_set hleft (sent_pktSent cfg _ _ hsent)
      | nothing =>
          rw [← Option.some.inj hnext]
          intro qp hqp
          simp only [scheduleNextSend] at hqp
          split at hqp
          · exact hleft qp hqp
          · exact hleft qp hqp

theorem allSent_nicNext {e : NicEvent} (h : AllSent dev) (htimely : TimelyAck cfg dev e)
    (hnext : nicNext cfg dev e = some dev') : AllSent dev' := by
  simp only [nicNext] at hnext
  split at hnext
  · cases hnext
  · rename_i dev₁ heffect
    have hsent := allSent_nicEffect h htimely heffect
    split at hnext
    · exact allSent_dequeueAndTransmit hsent hnext
    · rw [← Option.some.inj hnext]
      exact hsent

/-- A queue pair with bytes left whose flow is complete is never eligible where all is sent. -/
theorem unfinished_of_allSent {paused : Queue → Bool} {now : Int} {qp : RdmaQueuePair} (h : qp.Sent)
    (hsend : eligible paused now qp = true) : qp.isFinished = false := by
  rw [Bool.eq_false_iff]
  intro hfinished
  have hleft := (eligible_iff.mp hsend).1
  rw [canSend, h hfinished] at hleft
  simp at hleft

/-- In every run, and for every call in it, `GetNextQindex` keeps its promise exactly where it serves the ACK
queue or the queue pair whose turn it is has not finished; it does so in every call of a run in which no ACK
completes a flow while `snd_nxt` is rolled back. -/
theorem getNextQindex_spec_iff (cfg : NicConfig) {trace : List (Transition QbbNetDevice NicEvent)}
    (hrun : (nicSystem cfg).Run (nicSystem cfg).init trace dev) {e : NicEvent}
    (hcall : nicEffect cfg dev e = some dev') (paused : Queue → Bool) (now : Int) :
    (NextSpec paused now dev'.rdmaEQ (getNextQindex paused now dev'.rdmaEQ).1
        (getNextQindex paused now dev'.rdmaEQ).2 ↔
      AckServed paused dev'.rdmaEQ ∨
        ∀ i, FirstEligible paused now dev'.rdmaEQ i → (dev'.rdmaEQ.qps.get i).isFinished = false) ∧
    ((∀ x ∈ trace, TimelyAck cfg x.pre x.label) → TimelyAck cfg dev e →
      NextSpec paused now dev'.rdmaEQ (getNextQindex paused now dev'.rdmaEQ).1
        (getNextQindex paused now dev'.rdmaEQ).2) := by
  refine ⟨nextSpec_iff, fun htimely hlast => nextSpec_iff.mpr (.inr fun i hfirst => ?_)⟩
  have hsent : AllSent dev :=
    (hrun.invariant_of_guard (P := AllSent) (C := TimelyAck cfg)
      (fun _ _ _ h hack hnext => allSent_nicNext h hack hnext) htimely
      (fun qp hqp => absurd hqp List.not_mem_nil)).1
  have hall := allSent_nicEffect hsent hlast hcall
  obtain ⟨k, -, hsend, -⟩ := hfirst
  exact unfinished_of_allSent (hall _ (List.get_mem _ i)) hsend

/-- The second packet of a flow of three: the queue pair is found, and it has not finished. -/
theorem getNextQindex_spec_secondPacket : ∃ dev, (nicSystem byteClock).exec (nicSystem byteClock).init
    [.attach, .newQp (plainQp 3000), .advance 1048] = some dev ∧
      NextSpec dev.paused dev.now dev.rdmaEQ (getNextQindex dev.paused dev.now dev.rdmaEQ).1
        (getNextQindex dev.paused dev.now dev.rdmaEQ).2 := by
  have hrun : (nicSystem byteClock).Run (nicSystem byteClock).init _ _ :=
    .cons (a := .attach) rfl (.cons (a := .newQp (plainQp 3000)) rfl (.cons (a := .advance 1048) rfl (.nil _)))
  have hspec := (getNextQindex_spec_iff byteClock hrun (e := .transmitComplete) rfl (fun _ => false) 1048).2
  refine ⟨_, rfl, hspec ?_ trivial⟩
  intro x hx
  simp only [List.mem_cons, List.not_mem_nil, or_false] at hx
  rcases hx with rfl | rfl | rfl
  · trivial
  · trivial
  · trivial

/-- A flow of three segments. A NACK makes it start again once PFC lets it; the next NACK, an interval later,
arrives when all is sent for the second time, and after it the ACK that completes the flow. -/
def lateAck : List NicEvent :=
  [.attach, .newQp (plainQp 3000), .advance 1048, .transmitComplete, .advance 2096, .transmitComplete,
    .advance 3144, .transmitComplete, .pause 3, .recvAck 0 ⟨true, 0⟩ [], .advance 500000, .resume 3,
    .advance 501048, .transmitComplete, .advance 502096, .transmitComplete, .advance 503144, .transmitComplete,
    .advance 504000, .recvAck 0 ⟨true, 0⟩ [], .recvAck 0 ⟨false, 3000⟩ [], .advance 505048]

/-- The next packet is one of the completed flow. -/
theorem not_nextSpec_lateAck : ∃ dev, (nicSystem byteClock).exec (nicSystem byteClock).init lateAck = some dev ∧
    nicEffect byteClock dev .transmitComplete = some { dev with txComplete := none } ∧
    (getNextQindex dev.paused dev.now dev.rdmaEQ).1 = .qp 0 ∧
    dev.rdmaEQ.qps.map RdmaQueuePair.isFinished = [true] ∧
    ¬ NextSpec dev.paused dev.now dev.rdmaEQ (getNextQindex dev.paused dev.now dev.rdmaEQ).1
      (getNextQindex dev.paused dev.now dev.rdmaEQ).2 := by
  refine ⟨_, rfl, rfl, by decide, by decide, ?_⟩
  intro hspec
  obtain ⟨kept, -, hqp⟩ := hspec.qp
  obtain ⟨i, -, -, hopen⟩ := hqp 0 (by decide)
  revert hopen
  revert i
  decide

end Lcmp

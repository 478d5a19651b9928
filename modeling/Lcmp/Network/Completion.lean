import Lcmp.Network.Delivery

/-!
# Completion through the fabric

A flow whose two streams are remembered and lose nothing is one over a path that keeps the order, so what is known
of such a path holds of the fabric. A flow that is sent to its end and has nothing in the fabric is complete when the
last byte of a flow of its size is acknowledged.
-/

namespace Lcmp

open RouteDriver

variable {n : Nat} {t : Topology n} {fab : Fabric n} {h : FlowHosts n} {qp : RdmaQueuePair}

/-- Nothing is left to send, no answer is due, and the destinations have received all that was sent. -/
structure AtRest (h : FlowHosts n) (s : HostedFlow n) : Prop where
  sent : s.flow.qp.getBytesLeft = 0
  data : s.net.inFlight h.dataStream h.b = []
  acks : s.net.inFlight h.ackStream h.a = []
  pending : s.pending = none

/-- The run of the sample flow is short, and both of its streams have one destination each. -/
theorem undisturbed_thereAndBack {s : HostedFlow 5}
    (hexec : (hostedSystem twoWaysFabric sampleFlow (plainQp 2000)).exec
      (hostedSystem twoWaysFabric sampleFlow (plainQp 2000)).init thereAndBack = some s) :
    ∃ trace, (hostedSystem twoWaysFabric sampleFlow (plainQp 2000)).Run
        (hostedSystem twoWaysFabric sampleFlow (plainQp 2000)).init trace s ∧
      Undisturbed twoWaysFabric sampleFlow (trace.map inFabric) s.net ∧ AtRest sampleFlow s := by
  obtain ⟨trace, hrun, -⟩ := System.Run.of_exec thereAndBack hexec
  have hsome := Option.some_get thereAndBack_runs
  obtain rfl := Option.some.inj (hsome.trans hexec)
  refine ⟨trace, hrun, ⟨?_, ?_, by decide +kernel, by decide +kernel⟩, by decide +kernel, by decide +kernel, by decide +kernel,
    by decide +kernel⟩
  · exact remembered_of_short (hosted_run hrun) (by decide +kernel) (by decide +kernel)
  · exact remembered_of_short (hosted_run hrun) (by decide +kernel) (by decide +kernel)

theorem OverFifo.quiescent {s : HostedFlow n} {q : FifoState} (hover : OverFifo h s q) (hrest : AtRest h s) :
    Quiescent q where
  sent := by
    rw [hover.flow]
    exact hrest.sent
  data := by
    have hdata := hover.data
    rw [hrest.data] at hdata
    exact List.map_eq_nil_iff.mp hdata
  acks := by
    have hacks := hover.acks
    rw [hrest.acks, hrest.pending] at hacks
    exact List.map_eq_nil_iff.mp hacks

/-- A flow that is still open at rest misses the acknowledgement of its last byte. -/
theorem OpenFlow.not_quiescent {hw : RdmaHwConfig} {size : UInt64} {q : FifoState} (hopen : OpenFlow hw size q)
    (hlast : LastAcked hw size) : ¬ Quiescent q := by
  intro hquiet
  have hbytes := q.flow.qp.getBytesLeft_toNat
  have hdata := hopen.data
  have hbound := hopen.sndNxt
  have hmod := Nat.mod_le size.toNat (2 ^ 32)
  rw [hquiet.sent, hopen.mSize, UInt64.toNat_zero] at hbytes
  rw [hquiet.data] at hdata
  have hend : q.flow.expected.toNat = q.flow.qp.sndNxt.toNat := hdata
  obtain ⟨a, ha, -⟩ := hopen.last hlast (by omega)
  rw [hquiet.acks] at ha
  cases ha

end Lcmp

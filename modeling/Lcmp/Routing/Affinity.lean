import Lcmp.Routing.DciSwitch

/-!
# Flow affinity in mode 2

Every packet of a destination that has an entry leaves an entry for its flow id, stamped with its
arrival time. The clean-up that runs on each packet removes an entry once it is older than the
time-out. Between two packets of one flow id nothing else touches the entry, so the second packet
finds it exactly when it comes within the time-out.
-/

namespace Lcmp

/-- The packets of a flow id. -/
def IsPacketOf (id : UInt64) : DciEvent → Prop
  | .packet ch _ => ch.flowId = id
  | _ => False

/-- `GetOutDev` sends the packet to the port that is stored for its flow id, which stays stored, seen now. Nothing is
evaluated: no trend changes. -/
structure Refreshed (cfg : DciConfig) (env : SwitchEnv) (ch : CustomHeader) (sw : DciSwitch) (port : UInt32) : Prop where
  stored : ∃ seen, sw.flow2outdev.lookup ch.flowId = some ⟨port, seen⟩
  out : (sw.getOutDev cfg env ch).2 = some port
  entry : (sw.getOutDev cfg env ch).1.flow2outdev.lookup ch.flowId = some ⟨port, env.now⟩
  congState : (sw.getOutDev cfg env ch).1.congState = sw.congState

/-- The costs of the next hops at this packet, and the trends after them. -/
def evaluation (cfg : DciConfig) (env : SwitchEnv) (sw : DciSwitch) (nexthops : NextHops) :
    (UInt32 → CongestionState) × List (UInt32 × UInt32) :=
  costLoop cfg.toCostConfig env sw.congState nexthops.ports

/-- The choice among these costs. -/
def evaluatedPort (cfg : DciConfig) (env : SwitchEnv) (ch : CustomHeader) (sw : DciSwitch) (nexthops : NextHops) : UInt32 :=
  selectPath (evaluation cfg env sw nexthops).2 (costLoop_ne_nil _ _ _ nexthops.nonempty) (DciSwitch.flowHash cfg env ch)

/-- `GetOutDev` evaluates the next hops, sends the packet to its choice and stores it. -/
structure Evaluated (cfg : DciConfig) (env : SwitchEnv) (ch : CustomHeader) (sw : DciSwitch) (nexthops : NextHops) : Prop where
  out : (sw.getOutDev cfg env ch).2 = some (evaluatedPort cfg env ch sw nexthops)
  entry : (sw.getOutDev cfg env ch).1.flow2outdev.lookup ch.flowId =
    some ⟨evaluatedPort cfg env ch sw nexthops, env.now⟩
  congState : (sw.getOutDev cfg env ch).1.congState = (evaluation cfg env sw nexthops).1

namespace DciSwitch

variable {cfg : DciConfig} {ch : CustomHeader} (env : SwitchEnv) (sw : DciSwitch)

/-- A packet whose flow is remembered. -/
theorem refreshed_of_remembered (hmode : cfg.routingMode = .lcmp) {nexthops : NextHops}
    (htable : sw.rtTable.lookup ch.dip = some nexthops) {e : FlowEntry} (he : sw.remembered cfg env ch = some e) :
    Refreshed cfg env ch sw e.outDevIdx := by
  have hstored : sw.flow2outdev.lookup ch.flowId = some e := by
    simp only [remembered, hmode] at he
    rw [lookup_cleanIdleFlows] at he
    exact (Option.filter_eq_some_iff.mp he).1
  have hout := getOutDev_lcmp_some hmode htable he
  refine ⟨⟨e.lastSeen, hstored⟩, ?_, ?_, ?_⟩
  · rw [hout]
  · rw [hout]
    exact AList.lookup_insert _
  · rw [hout]
    rfl

/-- A packet whose flow is not remembered. -/
theorem evaluated_of_not_remembered (hmode : cfg.routingMode = .lcmp) {nexthops : NextHops}
    (htable : sw.rtTable.lookup ch.dip = some nexthops) (he : sw.remembered cfg env ch = none) :
    Evaluated cfg env ch sw nexthops := by
  have hout := getOutDev_lcmp_none hmode htable he
  refine ⟨?_, ?_, ?_⟩
  · rw [hout]
    rfl
  · rw [hout]
    exact AList.lookup_insert _
  · rw [hout]
    rfl

/-- A packet of mode 2 leaves the port it was given under its flow id, seen now. -/
theorem lookup_getOutDev_self (hmode : cfg.routingMode = .lcmp) {nexthops : NextHops}
    (htable : sw.rtTable.lookup ch.dip = some nexthops) :
    ∃ port, (sw.getOutDev cfg env ch).2 = some port ∧
      (sw.getOutDev cfg env ch).1.flow2outdev.lookup ch.flowId = some ⟨port, env.now⟩ := by
  cases he : sw.remembered cfg env ch with
  | none =>
      have hevaluated := evaluated_of_not_remembered env sw hmode htable he
      exact ⟨_, hevaluated.out, hevaluated.entry⟩
  | some e =>
      have hrefreshed := refreshed_of_remembered env sw hmode htable he
      exact ⟨_, hrefreshed.out, hrefreshed.entry⟩

/-- A packet of another flow id leaves an entry alone or, if it is idle, removes it. -/
theorem lookup_getOutDev_of_ne (hmode : cfg.routingMode = .lcmp) {id : UInt64} (hid : id ≠ ch.flowId) :
    (sw.getOutDev cfg env ch).1.flow2outdev.lookup id = sw.flow2outdev.lookup id ∨
    (sw.getOutDev cfg env ch).1.flow2outdev.lookup id =
      (sw.flow2outdev.lookup id).filter fun e => !decide (env.now - e.lastSeen > idleTimeout) := by
  cases htable : sw.rtTable.lookup ch.dip with
  | none =>
      rw [getOutDev_none htable]
      exact .inl rfl
  | some nexthops =>
      right
      rw [← lookup_cleanIdleFlows]
      cases he : sw.remembered cfg env ch with
      | none =>
          rw [getOutDev_lcmp_none hmode htable he]
          exact AList.lookup_insert_ne hid
      | some e =>
          rw [getOutDev_lcmp_some hmode htable he]
          exact AList.lookup_insert_ne hid

end DciSwitch

/-- What is known of the entry of a flow id that was last seen at `seen` and sent to `port`: it is
there, or it has been idle for longer than the time-out by now. -/
def Kept (id : UInt64) (port : UInt32) (seen : Int) (s : DciState) : Prop :=
  s.sw.flow2outdev.lookup id = some ⟨port, seen⟩ ∨
    s.sw.flow2outdev.lookup id = none ∧ s.clock - seen > DciSwitch.idleTimeout

theorem kept_step {cfg : DciConfig} (hmode : cfg.routingMode = .lcmp) {id : UInt64} {port : UInt32}
    {seen : Int} {s t : DciState} {event : DciEvent} (h : Kept id port seen s)
    (hother : ¬ IsPacketOf id event) (hnext : dciNext cfg s event = some t) :
    Kept id port seen t ∧ s.clock ≤ t.clock := by
  cases event with
  | packet ch env =>
      obtain ⟨hclock, rfl⟩ := dciNext_packet hnext
      refine ⟨?_, hclock⟩
      have hid : id ≠ ch.flowId := fun he => hother he.symm
      rcases DciSwitch.lookup_getOutDev_of_ne env s.sw hmode hid with hsame | hswept
      · rcases h with hthere | ⟨hgone, hidle⟩
        · exact .inl (hsame.trans hthere)
        · exact .inr ⟨hsame.trans hgone, by dsimp only; omega⟩
      · rcases h with hthere | ⟨hgone, hidle⟩
        · rw [hthere] at hswept
          by_cases hstale : env.now - seen > DciSwitch.idleTimeout
          · exact .inr ⟨by simpa [Option.filter, hstale] using hswept, hstale⟩
          · exact .inl (by simpa [Option.filter, hstale] using hswept)
        · rw [hgone] at hswept
          exact .inr ⟨hswept, by dsimp only; omega⟩
  | clearTable =>
      obtain rfl := Option.some.inj hnext
      exact ⟨h, Int.le_refl _⟩
  | addTableEntry dip intfIdx =>
      obtain rfl := Option.some.inj hnext
      exact ⟨h, Int.le_refl _⟩

/-- Two consecutive packets of one flow id in any run of mode 2, whatever happens in between, both to
destinations with an entry. Within the time-out the second is sent where the first was and nothing is
evaluated; later than that it is sent where the costs of that moment say. -/
theorem flow_affinity (cfg : DciConfig) (hmode : cfg.routingMode = .lcmp) (sw : DciSwitch)
    {before between after : List (Transition DciState DciEvent)} {x y : Transition DciState DciEvent}
    {s : DciState}
    (hrun : (dciSystem cfg sw).Run (dciSystem cfg sw).init (before ++ x :: (between ++ y :: after)) s)
    {ch ch' : CustomHeader} {env env' : SwitchEnv} (hx : x.label = .packet ch env)
    (hy : y.label = .packet ch' env') (hid : ch.flowId = ch'.flowId)
    (hbetween : ∀ z ∈ between, ¬ IsPacketOf ch.flowId z.label) {nexthops nexthops' : NextHops}
    (htable : x.pre.sw.rtTable.lookup ch.dip = some nexthops)
    (htable' : y.pre.sw.rtTable.lookup ch'.dip = some nexthops') :
    ∃ port, (x.pre.sw.getOutDev cfg env ch).2 = some port ∧
      (env'.now - env.now ≤ DciSwitch.idleTimeout → Refreshed cfg env' ch' y.pre.sw port) ∧
      (env'.now - env.now > DciSwitch.idleTimeout → Evaluated cfg env' ch' y.pre.sw nexthops') := by
  obtain ⟨-, hfirst, hrest⟩ := hrun.of_append_cons
  obtain ⟨hmiddle, hsecond, -⟩ := hrest.of_append_cons
  obtain ⟨port, hport, hstored⟩ :=
    DciSwitch.lookup_getOutDev_self env x.pre.sw hmode htable
  rw [hx] at hfirst
  rw [hy] at hsecond
  -- the first packet leaves its entry and its arrival time
  obtain ⟨-, hstart⟩ := dciNext_packet hfirst
  have hkept : Kept ch.flowId port env.now y.pre :=
    (hmiddle.invariant_of_guard (P := Kept ch.flowId port env.now)
      (C := fun _ event => ¬ IsPacketOf ch.flowId event)
      (fun _ _ _ h hother hnext => (kept_step hmode h hother hnext).1) hbetween
      (.inl (by rw [hstart]; exact hstored))).1
  obtain ⟨hclock, -⟩ := dciNext_packet hsecond
  have hfind : y.pre.sw.remembered cfg env' ch' =
      if env'.now - env.now > DciSwitch.idleTimeout then none else some ⟨port, env.now⟩ := by
    rw [DciSwitch.remembered, hmode]
    dsimp only
    rw [DciSwitch.lookup_cleanIdleFlows, ← hid]
    rcases hkept with hthere | ⟨hgone, hidle⟩
    · rw [hthere]
      by_cases hstale : env'.now - env.now > DciSwitch.idleTimeout
      · simp [Option.filter, hstale]
      · simp [Option.filter, hstale]
    · rw [hgone, if_pos (by omega)]
      rfl
  refine ⟨port, hport, fun hgap => ?_, fun hgap => ?_⟩
  · rw [if_neg (by omega)] at hfind
    exact DciSwitch.refreshed_of_remembered env' y.pre.sw hmode htable' hfind
  · rw [if_pos hgap] at hfind
    exact DciSwitch.evaluated_of_not_remembered env' y.pre.sw hmode htable' hfind

/-- A packet of another flow, from host 2 to host 1. -/
def otherPacket : CustomHeader := { flowPacket with sip := nodeIdToIp 2, sport := 10001 }

/-- Two packets of a flow one second apart with a packet of another flow in between, and a third one when the flow is
forgotten. -/
theorem flow_affinity_one_second :
    ∃ entry x other y z s,
      (dciSystem lcmpConfig .new).Run (dciSystem lcmpConfig .new).init [entry, x, other, y, z] s ∧
      (∃ port, (x.pre.sw.getOutDev lcmpConfig (quietEnv 1000 []) flowPacket).2 = some port ∧
        Refreshed lcmpConfig (quietEnv 1000001000 []) flowPacket y.pre.sw port) ∧
      ∃ nexthops, Evaluated lcmpConfig (quietEnv 4000000000 []) flowPacket z.pre.sw nexthops := by
  have hrun : (dciSystem lcmpConfig .new).Run (dciSystem lcmpConfig .new).init [_, _, _, _, _] _ :=
    .cons (a := .addTableEntry flowPacket.dip 1) rfl
      (.cons (a := .packet flowPacket (quietEnv 1000 [])) rfl
        (.cons (a := .packet otherPacket (quietEnv 500000000 [])) rfl
          (.cons (a := .packet flowPacket (quietEnv 1000001000 [])) rfl
            (.cons (a := .packet flowPacket (quietEnv 4000000000 [])) rfl (.nil _)))))
  have hother : ¬ IsPacketOf flowPacket.flowId (.packet otherPacket (quietEnv 500000000 [])) := by
    show ¬ otherPacket.flowId = flowPacket.flowId
    decide
  refine ⟨_, _, _, _, _, _, hrun, ?_, ?_⟩
  · have hsplit : (dciSystem lcmpConfig .new).Run _ ([_] ++ _ :: ([_] ++ _ :: [_])) _ := hrun
    obtain ⟨port, hport, hkept, -⟩ := flow_affinity lcmpConfig rfl .new hsplit rfl rfl rfl
      (fun z hz => List.mem_singleton.mp hz ▸ hother) (show _ = some (⟨[1], by decide⟩ : NextHops) by decide +kernel)
      (show _ = some (⟨[1], by decide⟩ : NextHops) by decide +kernel)
    exact ⟨port, hport, hkept (by decide)⟩
  · have hsplit : (dciSystem lcmpConfig .new).Run _ ([_, _, _] ++ _ :: ([] ++ _ :: [])) _ := hrun
    obtain ⟨-, -, -, hlater⟩ := flow_affinity lcmpConfig rfl .new hsplit rfl rfl rfl
      (fun z hz => absurd hz List.not_mem_nil) (show _ = some (⟨[1], by decide⟩ : NextHops) by decide +kernel)
      (show _ = some (⟨[1], by decide⟩ : NextHops) by decide +kernel)
    exact ⟨_, hlater (by decide)⟩

end Lcmp

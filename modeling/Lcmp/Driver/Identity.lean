import Lcmp.Driver.FlowNet

/-!
# Whose packet it is

Port numbers have 16 bits, and nobody looks whether the one that comes next is still in use. The keys of the
unfinished flows stay distinct as long as each flow starts while no unfinished one shares a key with it. If
nothing else is left of such a flow either, no host takes one flow for another.
-/

namespace Lcmp

namespace FlowNet

open FlowFile

variable {cfg : FlowNetConfig} {file : FlowFile} {s s' : FlowNet} {f : Nat}

/-! ### Distinct keys -/

/-- The unfinished queue pairs of a host have different keys, and so have the unfinished flows towards
one. -/
structure Distinct (file : FlowFile) (s : FlowNet) : Prop where
  qpKeys : ∀ f g q q', s.qps f = some q → s.qps g = some q' → s.completed f = false → s.completed g = false →
    f ≠ g → (file.line f).src = (file.line g).src → q.key ≠ q'.key
  rxKeys : ∀ f g q q', s.qps f = some q → s.qps g = some q' → s.completed f = false → s.completed g = false →
    f ≠ g → (file.line f).dst = (file.line g).dst → q.tuple.rxKey ≠ q'.tuple.rxKey

/-- No two unfinished flows share a key. -/
def Solo (file : FlowFile) (s : FlowNet) : Prop :=
  ∀ f g, s.Unfinished f → s.Unfinished g → f ≠ g → ¬ file.SharesKey f g

theorem distinct_iff (hn : Numbered cfg file s) : Distinct file s ↔ Solo file s := by
  constructor
  · rintro hd f g ⟨⟨q, hq⟩, hf⟩ ⟨⟨q', hq'⟩, hg⟩ hne hshares
    rcases sharesKey_iff.mp hshares with ⟨hsrc, hkey⟩ | ⟨hdst, hkey⟩
    · apply hd.qpKeys f g q q' hq hq' hf hg hne hsrc
      rw [HostQp.key_eq, HostQp.key_eq, (hn.qps f q hq).2, (hn.qps g q' hq').2, hkey]
    · apply hd.rxKeys f g q q' hq hq' hf hg hne hdst
      rw [(hn.qps f q hq).2, (hn.qps g q' hq').2, hkey]
  · intro hsolo
    refine ⟨fun f g q q' hq hq' hf hg hne hsrc hkey => ?_, fun f g q q' hq hq' hf hg hne hdst hkey => ?_⟩
    · rw [HostQp.key_eq, HostQp.key_eq, (hn.qps f q hq).2, (hn.qps g q' hq').2] at hkey
      exact hsolo f g ⟨⟨q, hq⟩, hf⟩ ⟨⟨q', hq'⟩, hg⟩ hne (sharesKey_iff.mpr (.inl ⟨hsrc, hkey⟩))
    · rw [(hn.qps f q hq).2, (hn.qps g q' hq').2] at hkey
      exact hsolo f g ⟨⟨q, hq⟩, hf⟩ ⟨⟨q', hq'⟩, hg⟩ hne (sharesKey_iff.mpr (.inr ⟨hdst, hkey⟩))

/-- A flow starts while no unfinished one shares a key with it. -/
def Free (file : FlowFile) (s : FlowNet) : FlowEvent → Prop
  | .startApplication f _ => ∀ g, s.Unfinished g → ¬ file.SharesKey f g
  | _ => True

/-- A flow that is added is unfinished, and the others stay so. -/
theorem unfinished_of_started {qp : RdmaQueuePair} (hn : Numbered cfg file s)
    (h : Moved cfg file s (.startApplication f qp) s') :
    ¬ s.Started f ∧ s'.Unfinished f ∧ ∀ g, s.Unfinished g → s'.Unfinished g := by
  cases h with
  | @started f qp c q hclient hnew htuple =>
      have hfresh : ¬ s.Started f := by
        rintro ⟨r, hr⟩
        rw [hnew] at hr
        cases hr
      refine ⟨hfresh, ⟨⟨q, Function.update_self ..⟩, ?_⟩, fun g hg => ⟨started_update f g hg.1, hg.2⟩⟩
      cases hcompleted : s.completed f with
      | false => rfl
      | true => exact absurd (hn.completed f hcompleted) hfresh

theorem solo_step {event : FlowEvent} (hn : Numbered cfg file s) (hsolo : Solo file s)
    (h : Moved cfg file s event s') : Solo file s' ↔ Free file s event := by
  constructor
  · intro hsolo'
    cases event with
    | startApplication f qp =>
        intro g hg hshares
        obtain ⟨hfresh, hnew, hold⟩ := unfinished_of_started hn h
        refine hsolo' f g hnew (hold g hg) ?_ hshares
        rintro rfl
        exact hfresh hg.1
    | scheduleFlow => trivial
    | send f => trivial
    | receiveUdp k host now => trivial
    | receiveAck k host => trivial
    | loseData k => trivial
    | loseAck k => trivial
  · intro hfree f g hf hg hne hshares
    rcases unfinished_of_moved h hf with hf' | ⟨qp, rfl⟩
    · rcases unfinished_of_moved h hg with hg' | ⟨qp, rfl⟩
      · exact hsolo f g hf' hg' hne hshares
      · exact hfree f hf' hshares.symm
    · rcases unfinished_of_moved h hg with hg' | ⟨qp', heq⟩
      · exact hfree g hg' hshares
      · injection heq with heq
        exact hne heq

/-! ### What is left of a flow -/

/-- Nothing is left of a flow but its finished queue pair. -/
structure Gone (s : FlowNet) (f : Nat) : Prop where
  completed : s.completed f = true
  spent : ∀ q, s.qps f = some q → ¬ q.qp.getBytesLeft > 0
  data : ∀ p ∈ s.data, p.flow ≠ f
  acks : ∀ a ∈ s.acks, a.flow ≠ f
  rx : ∀ host key r, s.rxQpMap host key = some r → r.flow ≠ f

/-- A flow starts when nothing is left of the flows that share a key with it. -/
def Unshared (file : FlowFile) (s : FlowNet) : FlowEvent → Prop
  | .startApplication f _ => ∀ g, s.Started g → file.SharesKey f g → Gone s g
  | _ => True

/-- The maps hold the unfinished flows and the receivers' states, each under its own key, and of two flows
that share a key one is gone. -/
structure Sound (cfg : FlowNetConfig) (file : FlowFile) (s : FlowNet) : Prop extends Numbered cfg file s where
  entry : ∀ host key f, s.qpMap host key = some f →
    s.Unfinished f ∧ host = (file.line f).src ∧ key = (file.tuple f).qpKey
  entered : ∀ f, s.Unfinished f → s.qpMap (file.line f).src (file.tuple f).qpKey = some f
  data : ∀ p ∈ s.data, s.Started p.flow ∧ p.tuple = file.tuple p.flow
  acks : ∀ a ∈ s.acks, s.Started a.flow ∧ a.tuple = file.tuple a.flow
  rx : ∀ host key r, s.rxQpMap host key = some r →
    s.Started r.flow ∧ host = (file.line r.flow).dst ∧ key = (file.tuple r.flow).rxKey
  awaited : ∀ a ∈ s.acks, s.Unfinished a.flow →
    ∃ r, s.rxQpMap (file.line a.flow).dst (file.tuple a.flow).rxKey = some r ∧ r.flow = a.flow
  solo : ∀ f g, s.Started f → s.Started g → f ≠ g → file.SharesKey f g → Gone s f ∨ Gone s g

theorem sound_start (cfg : FlowNetConfig) (file : FlowFile) : Sound cfg file (start cfg) where
  toNumbered := numbered_start cfg file
  entry := fun _ _ _ h => by cases h
  entered := fun f h => by
    obtain ⟨⟨q, hq⟩, -⟩ := h
    cases hq
  data := fun _ h => absurd h List.not_mem_nil
  acks := fun _ h => absurd h List.not_mem_nil
  rx := fun _ _ _ h => by cases h
  awaited := fun _ h => absurd h List.not_mem_nil
  solo := fun f g h => by
    obtain ⟨q, hq⟩ := h
    cases hq

theorem Gone.not_unfinished (hgone : Gone s f) : ¬ s.Unfinished f := by
  rintro ⟨-, hopen⟩
  rw [hgone.completed] at hopen
  cases hopen

/-- A flow that is gone has nothing to send after another one's queue pair has changed. -/
theorem Gone.spent_update (hgone : Gone s f) {g : Nat} {q : HostQp} (hne : f ≠ g) :
    ∀ r, Function.update s.qps g (some q) f = some r → ¬ r.qp.getBytesLeft > 0 := by
  intro r hr
  rw [Function.update_of_ne hne] at hr
  exact hgone.spent r hr

/-- A flow that is gone is not found. -/
theorem Sound.ne_of_gone (hs : Sound cfg file s) {host : UInt32} {key : UInt64} {g : Nat} (hgone : Gone s f)
    (hfound : s.qpMap host key = some g) : f ≠ g := by
  rintro rfl
  exact hgone.not_unfinished (hs.entry host key f hfound).1

/-- Of two flows that share a key one is finished. -/
theorem Sound.alone (hs : Sound cfg file s) {g : Nat} (hf : s.Unfinished f) (hg : s.Unfinished g)
    (hshares : file.SharesKey f g) : f = g := by
  by_contra hne
  rcases hs.solo f g hf.1 hg.1 hne hshares with hgone | hgone
  · exact hgone.not_unfinished hf
  · exact hgone.not_unfinished hg

section Nodes

variable (hnodes : cfg.nodeNum ≤ 65536)

include hnodes

theorem driver_node {id : UInt32} (h : cfg.isHost id = true) : ipToNodeId (nodeIdToIp id) = id :=
  ipToNodeId_nodeIdToIp (Nat.lt_of_lt_of_le (cfg.below id h) hnodes)

theorem host_inj {i j : UInt32} (hi : cfg.isHost i = true) (hj : cfg.isHost j = true)
    (haddress : nodeIdToIp i = nodeIdToIp j) : i = j := by
  rw [← driver_node hnodes hi, haddress, driver_node hnodes hj]

/-- The queue pair an acknowledgement finds is the one whose data it acknowledges. -/
theorem Sound.found (hs : Sound cfg file s) {a : ReplyPacket} {host : UInt32} (ha : a ∈ s.acks)
    (hhost : cfg.isHost host = true) (haddress : nodeIdToIp host = a.dip)
    (hfound : s.qpMap host a.tuple.qpKey = some f) : f = a.flow := by
  obtain ⟨hstarted, htuple⟩ := hs.acks a ha
  obtain ⟨q, hq⟩ := hstarted
  obtain ⟨hknown, -⟩ := hs.qps a.flow q hq
  have hsip : a.dip = nodeIdToIp (file.line a.flow).src := congrArg FlowTuple.sip htuple
  have hnode : host = (file.line a.flow).src := host_inj hnodes hhost hknown.src (haddress.trans hsip)
  obtain ⟨hopen, hown, hkey⟩ := hs.entry host _ f hfound
  by_contra hne
  rw [htuple] at hkey
  have hshares : file.SharesKey f a.flow := sharesKey_iff.mpr (.inl ⟨hown.symm.trans hnode, hkey.symm⟩)
  rcases hs.solo f a.flow hopen.1 ⟨q, hq⟩ hne hshares with hgone | hgone
  · exact hgone.not_unfinished hopen
  · exact hgone.acks a ha rfl

/-- The state a packet finds was created by a packet of the same flow. -/
theorem Sound.owner (hs : Sound cfg file s) {p : DataPacket} {host : UInt32} {r : HostRxQp} (hp : p ∈ s.data)
    (hhost : cfg.isHost host = true) (haddress : nodeIdToIp host = p.dip)
    (hfound : s.rxQpMap host p.tuple.rxKey = some r) : r.flow = p.flow := by
  obtain ⟨hstarted, htuple⟩ := hs.data p hp
  obtain ⟨q, hq⟩ := hstarted
  obtain ⟨hknown, -⟩ := hs.qps p.flow q hq
  have hdip : p.dip = nodeIdToIp (file.line p.flow).dst := congrArg FlowTuple.dip htuple
  have hnode : host = (file.line p.flow).dst := host_inj hnodes hhost hknown.dst (haddress.trans hdip)
  obtain ⟨hrstarted, hown, hkey⟩ := hs.rx host _ r hfound
  by_contra hne
  rw [htuple] at hkey
  have hshares : file.SharesKey r.flow p.flow := sharesKey_iff.mpr (.inr ⟨hown.symm.trans hnode, hkey.symm⟩)
  rcases hs.solo r.flow p.flow hrstarted ⟨q, hq⟩ hne hshares with hgone | hgone
  · exact hgone.rx host _ r hfound rfl
  · exact hgone.data p hp rfl

/-- The owner of the state after a packet has arrived. -/
theorem Sound.received_flow (hs : Sound cfg file s) {p : DataPacket} {host : UInt32} (hp : p ∈ s.data)
    (hhost : cfg.isHost host = true) (haddress : nodeIdToIp host = p.dip) :
    ((s.rxQpMap host p.tuple.rxKey).getD (.new p)).flow = p.flow ∧ host = (file.line p.flow).dst := by
  obtain ⟨⟨q, hq⟩, htuple⟩ := hs.data p hp
  obtain ⟨hknown, -⟩ := hs.qps p.flow q hq
  have hdip : p.dip = nodeIdToIp (file.line p.flow).dst := congrArg FlowTuple.dip htuple
  refine ⟨?_, host_inj hnodes hhost hknown.dst (haddress.trans hdip)⟩
  cases hfound : s.rxQpMap host p.tuple.rxKey with
  | none => rfl
  | some r => exact hs.owner hnodes hp hhost haddress hfound

/-- A flow that is gone stays so. -/
theorem gone_step {event : FlowEvent} (hs : Sound cfg file s) (h : Moved cfg file s event s') (hgone : Gone s f) :
    Gone s' f := by
  cases h with
  | scheduled c hknown htuple => exact ⟨hgone.completed, hgone.spent, hgone.data, hgone.acks, hgone.rx⟩
  | @started g qp c q hclient hnew htuple =>
      have hne : f ≠ g := by
        rintro rfl
        obtain ⟨q', hq'⟩ := hs.completed f hgone.completed
        rw [hnew] at hq'
        cases hq'
      exact ⟨hgone.completed, hgone.spent_update hne, hgone.data, hgone.acks, hgone.rx⟩
  | @sent g q q' p hq hleft htuple hp hflow =>
      have hne : f ≠ g := by
        rintro rfl
        exact hgone.spent q hq hleft
      refine ⟨hgone.completed, hgone.spent_update hne, fun p' hp' => ?_, hgone.acks, hgone.rx⟩
      rcases List.mem_append.mp hp' with hp' | hp'
      · exact hgone.data p' hp'
      · obtain rfl := List.mem_singleton.mp hp'
        rw [hflow]
        exact Ne.symm hne
  | @received k host now p r acks hp hhost haddress howner hacks =>
      have hmem := List.mem_of_getElem? hp
      have hflow := hgone.data p hmem
      refine ⟨hgone.completed, hgone.spent, fun p' hp' => hgone.data p' (List.mem_of_mem_eraseIdx hp'),
        fun a ha => ?_, fun host' key r' hr' => ?_⟩
      · rcases List.mem_append.mp ha with ha | ha
        · exact hgone.acks a ha
        · rw [(hacks a ha).2]
          exact hflow
      · have hmap : Grid.set s.rxQpMap host p.tuple.rxKey (some r) host' key = some r' := hr'
        by_cases hcell : host' = host ∧ key = p.tuple.rxKey
        · obtain ⟨rfl, rfl⟩ := hcell
          rw [Grid.set_self] at hmap
          obtain rfl := Option.some.inj hmap
          rw [howner, (hs.received_flow hnodes hmem hhost haddress).1]
          exact hflow
        · rw [Grid.set_of_ne hcell] at hmap
          exact hgone.rx host' key r' hmap
  | unknown ha hhost haddress hunknown =>
      exact ⟨hgone.completed, hgone.spent, hgone.data, fun a ha => hgone.acks a (List.mem_of_mem_eraseIdx ha),
        hgone.rx⟩
  | @acknowledged k host a g q q' ha hhost haddress hfound hq htuple =>
      have hne := hs.ne_of_gone hgone hfound
      exact ⟨hgone.completed, hgone.spent_update hne, hgone.data,
        fun a ha => hgone.acks a (List.mem_of_mem_eraseIdx ha), hgone.rx⟩
  | @finished k host a g q q' ha hhost haddress hfound hq htuple =>
      have hne := hs.ne_of_gone hgone hfound
      refine ⟨?_, hgone.spent_update hne, hgone.data, fun a ha => hgone.acks a (List.mem_of_mem_eraseIdx ha),
        fun host' key r hr => hgone.rx host' key r (Grid.of_set_none hr).2⟩
      show Function.update s.completed g true f = true
      rw [Function.update_of_ne hne]
      exact hgone.completed
  | lostData k =>
      exact ⟨hgone.completed, hgone.spent, fun p hp => hgone.data p (List.mem_of_mem_eraseIdx hp), hgone.acks,
        hgone.rx⟩
  | lostAck k =>
      exact ⟨hgone.completed, hgone.spent, hgone.data, fun a ha => hgone.acks a (List.mem_of_mem_eraseIdx ha),
        hgone.rx⟩

/-- Of two flows that share a key one is gone after the step, too. -/
theorem solo_moved {event : FlowEvent} (hs : Sound cfg file s) (hun : Unshared file s event)
    (h : Moved cfg file s event s') (f g : Nat) (hf : s'.Started f) (hg : s'.Started g) (hne : f ≠ g)
    (hshares : file.SharesKey f g) : Gone s' f ∨ Gone s' g := by
  rcases started_of_moved h hf with hf' | ⟨qp, rfl⟩
  · rcases started_of_moved h hg with hg' | ⟨qp, rfl⟩
    · exact (hs.solo f g hf' hg' hne hshares).imp (gone_step hnodes hs h) (gone_step hnodes hs h)
    · exact .inl (gone_step hnodes hs h (hun f hf' hshares.symm))
  · rcases started_of_moved h hg with hg' | ⟨qp', heq⟩
    · exact .inr (gone_step hnodes hs h (hun g hg' hshares))
    · injection heq with heq
      exact absurd heq hne

omit hnodes in
/-- A step that leaves the maps alone, starts nothing and finishes nothing. -/
theorem Sound.entries_same (hs : Sound cfg file s) {event : FlowEvent} (h : Moved cfg file s event s')
    (hmap : s'.qpMap = s.qpMap) (hcompleted : s'.completed = s.completed)
    (hevent : ∀ g qp, event ≠ .startApplication g qp) :
    (∀ host key f, s'.qpMap host key = some f →
      s'.Unfinished f ∧ host = (file.line f).src ∧ key = (file.tuple f).qpKey) ∧
    ∀ f, s'.Unfinished f → s'.qpMap (file.line f).src (file.tuple f).qpKey = some f := by
  rw [hmap]
  refine ⟨fun host key f hf => ?_, fun f hf => hs.entered f ?_⟩
  · obtain ⟨hopen, hentry⟩ := hs.entry host key f hf
    exact ⟨⟨started_kept h hopen.1, by rw [hcompleted]; exact hopen.2⟩, hentry⟩
  · exact (unfinished_of_moved h hf).resolve_right fun ⟨qp, hlabel⟩ => hevent f qp hlabel

omit hnodes in
/-- The map of a host holds its unfinished flows after the step, too. -/
theorem entries_moved {event : FlowEvent} (hs : Sound cfg file s) (hun : Unshared file s event)
    (h : Moved cfg file s event s') :
    (∀ host key f, s'.qpMap host key = some f →
      s'.Unfinished f ∧ host = (file.line f).src ∧ key = (file.tuple f).qpKey) ∧
    ∀ f, s'.Unfinished f → s'.qpMap (file.line f).src (file.tuple f).qpKey = some f := by
  have hsame := hs.entries_same h
  cases h with
  | scheduled c hknown htuple => exact hsame rfl rfl nofun
  | @started f qp c q hclient hnew htuple =>
      have hmoved : Moved cfg file s (.startApplication f qp) _ := .started hclient hnew htuple
      obtain ⟨hfresh, hself, hold⟩ := unfinished_of_started hs.toNumbered hmoved
      have hfile : q.tuple = file.tuple f := htuple.trans (hs.clients f c hclient).2
      refine ⟨fun host key g hg => ?_, fun g hg => ?_⟩
      · have hmap : Grid.set s.qpMap (file.line f).src q.tuple.qpKey (some f) host key = some g := hg
        by_cases hcell : host = (file.line f).src ∧ key = q.tuple.qpKey
        · obtain ⟨rfl, rfl⟩ := hcell
          rw [Grid.set_self] at hmap
          obtain rfl := Option.some.inj hmap
          exact ⟨hself, rfl, by rw [hfile]⟩
        · rw [Grid.set_of_ne hcell] at hmap
          obtain ⟨hopen, hentry⟩ := hs.entry host key g hmap
          exact ⟨hold g hopen, hentry⟩
      · show Grid.set s.qpMap (file.line f).src q.tuple.qpKey (some f) _ _ = some g
        by_cases hgf : g = f
        · subst hgf
          rw [hfile, Grid.set_self]
        · have hopen : s.Unfinished g := (unfinished_of_moved hmoved hg).resolve_right fun ⟨qp', heq⟩ => by
            injection heq with heq
            exact hgf heq.symm
          rw [Grid.set_of_ne]
          · exact hs.entered g hopen
          · rintro ⟨hsrc, hkey⟩
            rw [hfile] at hkey
            have hshares : file.SharesKey f g := sharesKey_iff.mpr (.inl ⟨hsrc.symm, hkey.symm⟩)
            exact (hun g hopen.1 hshares).not_unfinished hopen
  | sent hq hleft htuple hp hflow => exact hsame rfl rfl nofun
  | received hp hhost haddress howner hacks => exact hsame rfl rfl nofun
  | unknown ha hhost haddress hunknown => exact hsame rfl rfl nofun
  | acknowledged ha hhost haddress hfound hq htuple => exact hsame rfl rfl nofun
  | @finished k host a f q q' ha hhost haddress hfound hq htuple =>
      have hmoved : Moved cfg file s (.receiveAck k host) _ := .finished ha hhost haddress hfound hq htuple
      have hkey : a.tuple.qpKey = q.tuple.qpKey := by
        rw [(hs.entry host _ f hfound).2.2, (hs.qps f q hq).2]
      rw [hkey] at hfound
      refine ⟨fun host' key g hg => ?_, fun g hg => ?_⟩
      · obtain ⟨hcell, hmap⟩ := Grid.of_set_none hg
        obtain ⟨hopen, hentry⟩ := hs.entry host' key g hmap
        refine ⟨⟨started_update f g hopen.1, ?_⟩, hentry⟩
        show Function.update s.completed f true g = false
        rw [Function.update_of_ne]
        · exact hopen.2
        · rintro rfl
          obtain ⟨-, hnode, hown⟩ := hs.entry host _ g hfound
          exact hcell ⟨hentry.1.trans hnode.symm, hentry.2.trans hown.symm⟩
      · show Grid.set s.qpMap host q.tuple.qpKey none _ _ = some g
        have hopen : s.Unfinished g := (unfinished_of_moved hmoved hg).resolve_right nofun
        have hentered := hs.entered g hopen
        rw [Grid.set_of_ne]
        · exact hentered
        · rintro ⟨hnode, hown⟩
          rw [hnode, hown, hfound] at hentered
          obtain rfl := Option.some.inj hentered
          have hcompleted : Function.update s.completed f true f = false := hg.2
          rw [Function.update_self] at hcompleted
          cases hcompleted
  | lostData k => exact hsame rfl rfl nofun
  | lostAck k => exact hsame rfl rfl nofun

/-- What is under way after the step is marked with its flow. -/
theorem marked_moved {event : FlowEvent} (hs : Sound cfg file s) (h : Moved cfg file s event s') :
    (∀ p ∈ s'.data, s.Started p.flow ∧ p.tuple = file.tuple p.flow) ∧
    (∀ a ∈ s'.acks, s.Started a.flow ∧ a.tuple = file.tuple a.flow) ∧
    ∀ host key r, s'.rxQpMap host key = some r →
      s.Started r.flow ∧ host = (file.line r.flow).dst ∧ key = (file.tuple r.flow).rxKey := by
  cases h with
  | scheduled c hknown htuple => exact ⟨hs.data, hs.acks, hs.rx⟩
  | started hclient hnew htuple => exact ⟨hs.data, hs.acks, hs.rx⟩
  | @sent f q q' p hq hleft htuple hp hflow =>
      refine ⟨fun p' hp' => ?_, hs.acks, hs.rx⟩
      rcases List.mem_append.mp hp' with hp' | hp'
      · exact hs.data p' hp'
      · obtain rfl := List.mem_singleton.mp hp'
        rw [hflow]
        exact ⟨⟨q, hq⟩, hp.trans (hs.qps f q hq).2⟩
  | @received k host now p r acks hp hhost haddress howner hacks =>
      have hmem := List.mem_of_getElem? hp
      obtain ⟨hstarted, htuple⟩ := hs.data p hmem
      refine ⟨fun p' hp' => hs.data p' (List.mem_of_mem_eraseIdx hp'), fun a ha => ?_, fun host' key r' hr' => ?_⟩
      · rcases List.mem_append.mp ha with ha | ha
        · exact hs.acks a ha
        · obtain ⟨hatuple, haflow⟩ := hacks a ha
          rw [haflow]
          exact ⟨hstarted, hatuple.trans htuple⟩
      · have hmap : Grid.set s.rxQpMap host p.tuple.rxKey (some r) host' key = some r' := hr'
        by_cases hcell : host' = host ∧ key = p.tuple.rxKey
        · obtain ⟨rfl, rfl⟩ := hcell
          rw [Grid.set_self] at hmap
          obtain rfl := Option.some.inj hmap
          obtain ⟨hflow, hnode⟩ := hs.received_flow hnodes hmem hhost haddress
          rw [howner, hflow]
          exact ⟨hstarted, hnode, by rw [htuple]⟩
        · rw [Grid.set_of_ne hcell] at hmap
          exact hs.rx host' key r' hmap
  | unknown ha hhost haddress hunknown => exact ⟨hs.data, fun a ha => hs.acks a (List.mem_of_mem_eraseIdx ha), hs.rx⟩
  | acknowledged ha hhost haddress hfound hq htuple =>
      exact ⟨hs.data, fun a ha => hs.acks a (List.mem_of_mem_eraseIdx ha), hs.rx⟩
  | @finished k host a f q q' ha hhost haddress hfound hq htuple =>
      exact ⟨hs.data, fun a ha => hs.acks a (List.mem_of_mem_eraseIdx ha),
        fun host' key r hr => hs.rx host' key r (Grid.of_set_none hr).2⟩
  | lostData k => exact ⟨fun p hp => hs.data p (List.mem_of_mem_eraseIdx hp), hs.acks, hs.rx⟩
  | lostAck k => exact ⟨hs.data, fun a ha => hs.acks a (List.mem_of_mem_eraseIdx ha), hs.rx⟩

/-- The receiver an acknowledgement came from keeps its state until the flow is finished. -/
theorem awaited_moved {event : FlowEvent} (hs : Sound cfg file s) (h : Moved cfg file s event s') (a : ReplyPacket)
    (ha : a ∈ s'.acks) (hopen : s'.Unfinished a.flow) :
    ∃ r, s'.rxQpMap (file.line a.flow).dst (file.tuple a.flow).rxKey = some r ∧ r.flow = a.flow := by
  have hopenBefore : s.Started a.flow → s.Unfinished a.flow := fun hstarted => ⟨hstarted, completed_of_moved h hopen.2⟩
  have hbefore := hopenBefore ((marked_moved hnodes hs h).2.1 a ha).1
  cases h with
  | scheduled c hknown htuple => exact hs.awaited a ha hopen
  | started hclient hnew htuple => exact hs.awaited a ha hbefore
  | sent hq hleft htuple hp hflow => exact hs.awaited a ha hbefore
  | @received k host now p r acks hp hhost haddress howner hacks =>
      have hmem := List.mem_of_getElem? hp
      obtain ⟨hflow, hnode⟩ := hs.received_flow hnodes hmem hhost haddress
      obtain ⟨hstarted, htuple⟩ := hs.data p hmem
      show ∃ r', Grid.set s.rxQpMap host p.tuple.rxKey (some r) _ _ = some r' ∧ r'.flow = a.flow
      rcases List.mem_append.mp ha with ha | ha
      · by_cases hcell : (file.line a.flow).dst = host ∧ (file.tuple a.flow).rxKey = p.tuple.rxKey
        · rw [hcell.1, hcell.2, Grid.set_self]
          refine ⟨r, rfl, ?_⟩
          obtain ⟨r₀, hr₀, hown⟩ := hs.awaited a ha hbefore
          rw [hcell.1, hcell.2] at hr₀
          rw [howner, hr₀]
          exact hown
        · rw [Grid.set_of_ne hcell]
          exact hs.awaited a ha hbefore
      · rw [(hacks a ha).2, ← hnode, ← htuple, Grid.set_self]
        exact ⟨r, rfl, howner.trans hflow⟩
  | unknown hk hhost haddress hunknown => exact hs.awaited a (List.mem_of_mem_eraseIdx ha) hbefore
  | acknowledged hk hhost haddress hfound hq htuple => exact hs.awaited a (List.mem_of_mem_eraseIdx ha) hbefore
  | @finished k host a' f q q' hk hhost haddress hfound hq htuple =>
      obtain ⟨r, hr, hown⟩ := hs.awaited a (List.mem_of_mem_eraseIdx ha) hbefore
      refine ⟨r, ?_, hown⟩
      show Grid.set s.rxQpMap (ipToNodeId q.tuple.dip) q.tuple.rxKey none _ _ = some r
      rw [Grid.set_of_ne]
      · exact hr
      · rintro ⟨hnode, hkey⟩
        obtain ⟨hknown, hfile⟩ := hs.qps f q hq
        rw [hfile] at hnode hkey
        have hdriver : ipToNodeId (file.tuple f).dip = (file.line f).dst := driver_node hnodes hknown.dst
        have hshares : file.SharesKey a.flow f := sharesKey_iff.mpr (.inr ⟨hnode.trans hdriver, hkey⟩)
        have hsame := hs.alone hbefore (hs.entry host _ f hfound).1 hshares
        have hcompleted : Function.update s.completed f true a.flow = false := hopen.2
        rw [hsame, Function.update_self] at hcompleted
        cases hcompleted
  | lostData k => exact hs.awaited a ha hopen
  | lostAck k => exact hs.awaited a (List.mem_of_mem_eraseIdx ha) hopen

theorem sound_step {event : FlowEvent} (hs : Sound cfg file s) (hun : Unshared file s event)
    (h : Moved cfg file s event s') : Sound cfg file s' := by
  obtain ⟨hentry, hentered⟩ := entries_moved hs hun h
  obtain ⟨hdata, hacks, hrx⟩ := marked_moved hnodes hs h
  refine ⟨numbered_step hs.toNumbered h, hentry, hentered, fun p hp => ?_, fun a ha => ?_, fun host key r hr => ?_,
    awaited_moved hnodes hs h, solo_moved hnodes hs hun h⟩
  · obtain ⟨hstarted, htuple⟩ := hdata p hp
    exact ⟨started_kept h hstarted, htuple⟩
  · obtain ⟨hstarted, htuple⟩ := hacks a ha
    exact ⟨started_kept h hstarted, htuple⟩
  · obtain ⟨hstarted, hmarked⟩ := hrx host key r hr
    exact ⟨started_kept h hstarted, hmarked⟩

end Nodes

/-! ### Whole runs -/

/-- What a step does to the maps is right: a queue pair that is added takes a free place, an acknowledgement
finds the queue pair that sent the data as long as it is unfinished and nothing after that, a packet finds
the state of its own flow if any, and a flow that finishes takes its own state at the receiver with it and no
other. -/
structure IdentityKept (file : FlowFile) (x : Transition FlowNet FlowEvent) : Prop where
  adds : ∀ f q, x.pre.qps f = none → x.post.qps f = some q → x.pre.qpMap (file.line f).src q.key = none
  acknowledges : ∀ k host a, x.label = .receiveAck k host → x.pre.acks[k]? = some a →
    x.pre.qpMap host (CcHost.getQpKey a.sip a.dport a.pg) = if x.pre.completed a.flow then none else some a.flow
  receives : ∀ k host now p, x.label = .receiveUdp k host now → x.pre.data[k]? = some p →
    ∀ r, x.pre.rxQpMap host (getRxQpKey p.sip p.pg p.sport) = some r → r.flow = p.flow
  completes : ∀ f, x.pre.completed f = false → x.post.completed f = true →
    ∃ q r, x.pre.qps f = some q ∧ x.pre.rxQpMap (file.line f).dst q.tuple.rxKey = some r ∧ r.flow = f ∧
      x.post.rxQpMap = Grid.set x.pre.rxQpMap (file.line f).dst q.tuple.rxKey none

section Nodes

variable (hnodes : cfg.nodeNum ≤ 65536)

include hnodes

theorem Sound.lookup (hs : Sound cfg file s) {a : ReplyPacket} {host : UInt32} (ha : a ∈ s.acks)
    (hhost : cfg.isHost host = true) (haddress : nodeIdToIp host = a.dip) :
    s.qpMap host a.tuple.qpKey = if s.completed a.flow then none else some a.flow := by
  obtain ⟨⟨q, hq⟩, htuple⟩ := hs.acks a ha
  obtain ⟨hknown, -⟩ := hs.qps a.flow q hq
  have hsip : a.dip = nodeIdToIp (file.line a.flow).src := congrArg FlowTuple.sip htuple
  have hnode : host = (file.line a.flow).src := host_inj hnodes hhost hknown.src (haddress.trans hsip)
  cases hcompleted : s.completed a.flow with
  | false =>
      rw [hnode, htuple]
      exact hs.entered a.flow ⟨⟨q, hq⟩, hcompleted⟩
  | true =>
      cases hfound : s.qpMap host a.tuple.qpKey with
      | none => rfl
      | some f =>
          have hsame := hs.found hnodes ha hhost haddress hfound
          have hopen := (hs.entry host _ f hfound).1.2
          rw [hsame, hcompleted] at hopen
          cases hopen

omit hnodes in
/-- A new queue pair overwrites nothing. -/
theorem Sound.adds (hs : Sound cfg file s) {event : FlowEvent} (hun : Unshared file s event)
    (h : Moved cfg file s event s') {q : HostQp} (hnew : s.qps f = none) (hq : s'.qps f = some q) :
    s.qpMap (file.line f).src q.key = none := by
  obtain ⟨-, hfile⟩ := (numbered_step hs.toNumbered h).qps f q hq
  rcases started_of_moved h ⟨q, hq⟩ with ⟨q', hq'⟩ | ⟨qp, rfl⟩
  · rw [hnew] at hq'
    cases hq'
  · cases hfound : s.qpMap (file.line f).src q.key with
    | none => rfl
    | some g =>
        obtain ⟨hopen, hsrc, hkey⟩ := hs.entry _ _ g hfound
        rw [HostQp.key_eq, hfile] at hkey
        have hshares : file.SharesKey f g := sharesKey_iff.mpr (.inl ⟨hsrc, hkey⟩)
        exact absurd hopen (hun g hopen.1 hshares).not_unfinished

/-- A flow that finishes deletes its own state at the receiver. -/
theorem Sound.completes (hs : Sound cfg file s) {event : FlowEvent} (h : Moved cfg file s event s')
    (hopen : s.completed f = false) (hdone : s'.completed f = true) :
    ∃ q r, s.qps f = some q ∧ s.rxQpMap (file.line f).dst q.tuple.rxKey = some r ∧ r.flow = f ∧
      s'.rxQpMap = Grid.set s.rxQpMap (file.line f).dst q.tuple.rxKey none := by
  have hsame : s.completed f = true → False := fun htrue => by
    rw [hopen] at htrue
    cases htrue
  cases h with
  | scheduled c hknown htuple => exact absurd hdone hsame
  | started hclient hnew htuple => exact absurd hdone hsame
  | sent hq hleft htuple hp hflow => exact absurd hdone hsame
  | received hp hhost haddress howner hacks => exact absurd hdone hsame
  | unknown ha hhost haddress hunknown => exact absurd hdone hsame
  | acknowledged ha hhost haddress hfound hq htuple => exact absurd hdone hsame
  | @finished k host a g q q' ha hhost haddress hfound hq htuple =>
      have hfg : f = g := by
        by_contra hne
        have hupdate : Function.update s.completed g true f = true := hdone
        rw [Function.update_of_ne hne] at hupdate
        exact hsame hupdate
      subst hfg
      have hmem := List.mem_of_getElem? ha
      have hflow := hs.found hnodes hmem hhost haddress hfound
      obtain ⟨r, hr, hown⟩ := hs.awaited a hmem (by rw [← hflow]; exact (hs.entry host _ f hfound).1)
      obtain ⟨hknown, hfile⟩ := hs.qps f q hq
      have hdriver : ipToNodeId q.tuple.dip = (file.line f).dst := by
        rw [hfile]
        exact driver_node hnodes hknown.dst
      rw [← hflow, ← hfile] at hr
      refine ⟨q, r, hq, hr, hown.trans hflow.symm, ?_⟩
      show Grid.set s.rxQpMap (ipToNodeId q.tuple.dip) q.tuple.rxKey none = _
      rw [hdriver]
  | lostData k => exact absurd hdone hsame
  | lostAck k => exact absurd hdone hsame

theorem identityKept (hs : Sound cfg file s) {event : FlowEvent} (hun : Unshared file s event)
    (h : flowNext cfg file s event = some s') : IdentityKept file ⟨s, event, s'⟩ where
  adds := fun f q hnew hq => hs.adds hun (moved h) hnew hq
  completes := fun f hopen hdone => hs.completes hnodes (moved h) hopen hdone
  acknowledges := fun k host a hlabel ha => by
    have hlabel' : event = .receiveAck k host := hlabel
    subst hlabel'
    have hack : s.acks[k]? = some a := ha
    cases moved h with
    | unknown ha' hhost haddress hunknown =>
        obtain rfl := Option.some.inj (ha'.symm.trans hack)
        exact hs.lookup hnodes (List.mem_of_getElem? hack) hhost haddress
    | acknowledged ha' hhost haddress hfound hq htuple =>
        obtain rfl := Option.some.inj (ha'.symm.trans hack)
        exact hs.lookup hnodes (List.mem_of_getElem? hack) hhost haddress
    | finished ha' hhost haddress hfound hq htuple =>
        obtain rfl := Option.some.inj (ha'.symm.trans hack)
        exact hs.lookup hnodes (List.mem_of_getElem? hack) hhost haddress
  receives := fun k host now p hlabel hp r hr => by
    have hlabel' : event = .receiveUdp k host now := hlabel
    subst hlabel'
    have hdata : s.data[k]? = some p := hp
    cases moved h with
    | received hp' hhost haddress howner hacks =>
        obtain rfl := Option.some.inj (hp'.symm.trans hdata)
        exact hs.owner hnodes (List.mem_of_getElem? hdata) hhost haddress hr

/-- In a run whose flows start when nothing is left of those that share a key with them, every map entry is
found by its own flow only. -/
theorem kept_of_unshared {trace : List (Transition FlowNet FlowEvent)}
    (hrun : (flowSystem cfg file).Run (flowSystem cfg file).init trace s)
    (hun : ∀ x ∈ trace, Unshared file x.pre x.label) :
    Distinct file s ∧ ∀ x ∈ trace, Distinct file x.post ∧ IdentityKept file x := by
  obtain ⟨hend, hall⟩ := hrun.invariant_of_guard (P := Sound cfg file) (C := Unshared file)
    (fun _ _ _ hs hc hnext => sound_step hnodes hs hc (moved hnext)) hun (sound_start cfg file)
  have hdistinct : ∀ {t : FlowNet}, Sound cfg file t → Distinct file t := fun ht =>
    (distinct_iff ht.toNumbered).mpr fun f g hf hg hne hshares => hne (ht.alone hf hg hshares)
  refine ⟨hdistinct hend, fun x hx => ⟨hdistinct (hall x hx).2, ?_⟩⟩
  exact identityKept hnodes (hall x hx).1 (hun x hx) (hrun.next_of_mem x hx)

/-- A pair of at most `2^16` flows never meets a port again. -/
theorem unshared_of_few {event : FlowEvent}
    (hfew : ∀ i j, Nat.count (fun g => (file.line g).src = i ∧ (file.line g).dst = j) file.flowNum ≤ 65536)
    (hn : Numbered cfg file s) (h : Moved cfg file s event s') : Unshared file s event := by
  cases event with
  | startApplication f qp =>
      intro g hg hshares
      obtain ⟨hfresh, ⟨⟨q, hq⟩, -⟩, -⟩ := unfinished_of_started hn h
      obtain ⟨hf, -⟩ := (numbered_step hn h).qps f q hq
      obtain ⟨q', hq'⟩ := id hg
      obtain ⟨hg', -⟩ := hn.qps g q' hq'
      have hsrc : (file.line g).src = (file.line f).src := by
        rcases hshares.nodes with ⟨hsrc, -⟩ | ⟨-, hsip⟩
        · exact hsrc.symm
        · exact host_inj hnodes hg'.src hf.src hsip.symm
      have hdst : (file.line g).dst = (file.line f).dst := by
        rcases hshares.nodes with ⟨-, hdip⟩ | ⟨hdst, -⟩
        · exact host_inj hnodes hg'.dst hf.dst hdip.symm
        · exact hdst.symm
      have hbelow : ∀ e, Known cfg file e → file.number e < 65536 := fun e he =>
        Nat.lt_of_lt_of_le (Nat.count_strict_mono (p := fun g => (file.line g).src = (file.line e).src ∧
          (file.line g).dst = (file.line e).dst) ⟨rfl, rfl⟩ he.line) (hfew _ _)
      have hnumber : file.number f = file.number g := by
        have hmod := hshares.number
        rwa [Nat.mod_eq_of_lt (hbelow f hf), Nat.mod_eq_of_lt (hbelow g hg')] at hmod
      have hcount : file.number g = Nat.count (fun e => (file.line e).src = (file.line f).src ∧
          (file.line e).dst = (file.line f).dst) g := by
        rw [FlowFile.number, hsrc, hdst]
      have hsame : f = g := Nat.count_injective ⟨rfl, rfl⟩ ⟨hsrc, hdst⟩ (hnumber.trans hcount)
      rw [hsame] at hfresh
      exact absurd hg hfresh
  | scheduleFlow => trivial
  | send f => trivial
  | receiveUdp k host now => trivial
  | receiveAck k host => trivial
  | loseData k => trivial
  | loseAck k => trivial

theorem unshared_of_few_run {trace : List (Transition FlowNet FlowEvent)}
    (hfew : ∀ i j, Nat.count (fun g => (file.line g).src = i ∧ (file.line g).dst = j) file.flowNum ≤ 65536)
    (hrun : (flowSystem cfg file).Run (flowSystem cfg file).init trace s) :
    ∀ x ∈ trace, Unshared file x.pre x.label := by
  obtain ⟨-, hall⟩ := hrun.invariant (P := Numbered cfg file)
    (fun _ _ _ hn hnext => numbered_step hn (moved hnext)) (numbered_start cfg file)
  intro x hx
  exact unshared_of_few hnodes hfew (hall x hx).1 (moved (hrun.next_of_mem x hx))

/-- With at most `2^16` flows for each pair of hosts the maps are right throughout. -/
theorem kept_of_few {trace : List (Transition FlowNet FlowEvent)}
    (hfew : ∀ i j, Nat.count (fun g => (file.line g).src = i ∧ (file.line g).dst = j) file.flowNum ≤ 65536)
    (hrun : (flowSystem cfg file).Run (flowSystem cfg file).init trace s) :
    Distinct file s ∧ ∀ x ∈ trace, Distinct file x.post ∧ IdentityKept file x :=
  kept_of_unshared hnodes hrun (unshared_of_few_run hnodes hfew hrun)

end Nodes

/-- The keys of the unfinished flows are distinct in a run exactly when every flow starts while no unfinished
one shares a key with it. If also nothing else is left of such a flow, every map entry is found by its own
flow only. -/
theorem identity_kept_iff (cfg : FlowNetConfig) (file : FlowFile) {trace : List (Transition FlowNet FlowEvent)}
    (hrun : (flowSystem cfg file).Run (flowSystem cfg file).init trace s) :
    ((∀ x ∈ trace, Distinct file x.post) ↔ ∀ x ∈ trace, Free file x.pre x.label) ∧
    (cfg.nodeNum ≤ 65536 → (∀ x ∈ trace, Unshared file x.pre x.label) →
      Distinct file s ∧ ∀ x ∈ trace, Distinct file x.post ∧ IdentityKept file x) := by
  refine ⟨?_, fun hnodes hun => kept_of_unshared hnodes hrun hun⟩
  have hsolo : Solo file (start cfg) := fun f g hf => by
    obtain ⟨⟨q, hq⟩, -⟩ := hf
    cases hq
  obtain ⟨-, hnumbered⟩ := hrun.invariant (P := Numbered cfg file)
    (fun _ _ _ hn hnext => numbered_step hn (moved hnext)) (numbered_start cfg file)
  have hiff := hrun.forall_post_iff (P := fun s => Numbered cfg file s ∧ Solo file s) (C := Free file)
    (fun _ _ _ hs hnext =>
      ⟨fun ht => (solo_step hs.1 hs.2 (moved hnext)).mp ht.2,
        fun hfree => ⟨numbered_step hs.1 (moved hnext), (solo_step hs.1 hs.2 (moved hnext)).mpr hfree⟩⟩)
    ⟨numbered_start cfg file, hsolo⟩
  rw [← hiff]
  constructor
  · intro hdistinct x hx
    have hn := (hnumbered x hx).2
    exact ⟨hn, (distinct_iff hn).mp (hdistinct x hx)⟩
  · intro hsound x hx
    exact (distinct_iff (hsound x hx).1).mpr (hsound x hx).2

/-! ### Two hosts -/

def twoHosts : FlowNetConfig where
  toRdmaHwConfig := everySegment
  nodeNum := 2
  isHost := fun id => decide (id < 2)
  below := fun _ h => UInt32.lt_iff_toNat_lt.mp (of_decide_eq_true h)

/-- `flowNum` equal flows from host 0 to host 1. -/
def pairFile (flowNum : Nat) : FlowFile where
  flowNum := flowNum
  line := fun _ => { src := 0, dst := 1, pg := 3, dport := 100, flowSize := 1000 }

/-- Two flows of a pair are started one after the other. The packet of the second is received first, and its ACK last. -/
def overlapping : List FlowEvent :=
  [.scheduleFlow, .startApplication 0 (plainQp 0), .scheduleFlow, .startApplication 1 (plainQp 0), .send 0, .send 1,
    .receiveUdp 1 1 0, .receiveUdp 0 1 0, .receiveAck 1 0, .receiveAck 0 0]

theorem identity_kept_iff_overlapping :
    ((flowSystem twoHosts (pairFile 2)).exec (flowSystem twoHosts (pairFile 2)).init (overlapping.take 9)).map
        (fun s => (s.completed 0, s.completed 1)) = some (true, false) ∧
      ∃ trace s, (flowSystem twoHosts (pairFile 2)).Run (flowSystem twoHosts (pairFile 2)).init trace s ∧
        trace.map Transition.label = overlapping ∧ s.completed 1 = true ∧ Distinct (pairFile 2) s ∧
        (∀ x ∈ trace, IdentityKept (pairFile 2) x) ∧ ∀ x ∈ trace, Free (pairFile 2) x.pre x.label := by
  refine ⟨by decide +kernel, ?_⟩
  have hexec : ((flowSystem twoHosts (pairFile 2)).exec (flowSystem twoHosts (pairFile 2)).init overlapping).map
      (fun s => s.completed 1) = some true := by decide +kernel
  obtain ⟨s, hexec, hcompleted⟩ := Option.map_eq_some_iff.mp hexec
  obtain ⟨trace, hrun, hlabels⟩ := System.Run.of_exec _ hexec
  have hfew : ∀ i j, Nat.count (fun g => ((pairFile 2).line g).src = i ∧ ((pairFile 2).line g).dst = j)
      (pairFile 2).flowNum ≤ 65536 := fun i j => Nat.le_trans (Nat.count_le _) (by decide : 2 ≤ 65536)
  obtain ⟨hfree, hkept⟩ := identity_kept_iff twoHosts (pairFile 2) hrun
  obtain ⟨hend, hall⟩ := hkept (by decide) (unshared_of_few_run (by decide) hfew hrun)
  exact ⟨trace, s, hrun, hlabels, hcompleted, hend, fun x hx => (hall x hx).2, hfree.mp fun x hx => (hall x hx).1⟩

/-- The next line of a file can be scheduled if it is between hosts. -/
theorem schedule_enabled (hknown : Known cfg file s.idx) :
    ∃ s' c, flowNext cfg file s .scheduleFlow = some s' ∧ s'.idx = s.idx + 1 ∧ s'.completed = s.completed ∧
      s'.qps = s.qps ∧ s'.clients s.idx = some c ∧ c.pg = (file.line s.idx).pg.toUInt16 := by
  rw [flowNext, scheduleFlow, if_pos hknown.line]
  dsimp only
  rw [if_pos ⟨hknown.src, hknown.dst⟩]
  exact ⟨_, _, rfl, rfl, rfl, rfl, Function.update_self .., rfl⟩

/-- An application that is installed can start, whatever is under its key. -/
theorem start_enabled {c : RdmaClient} (cfg : FlowNetConfig) (file : FlowFile) (hclient : s.clients f = some c)
    (hpg : c.pg.toNat < qCnt) (hnew : s.qps f = none) :
    ∃ s' q, flowNext cfg file s (.startApplication f (plainQp 0)) = some s' ∧ s'.idx = s.idx ∧
      s'.completed = s.completed ∧ s'.qps = Function.update s.qps f (some q) ∧
      s'.qpMap (file.line f).src q.key = some f := by
  rw [flowNext, startApplication, hclient, hnew]
  dsimp only
  rw [dif_pos hpg]
  exact ⟨_, _, rfl, rfl, rfl, rfl, Grid.set_self ..⟩

/-- Before anything is sent all flows that have been scheduled may be started and unfinished. -/
structure AllStarted (s : FlowNet) (n : Nat) : Prop where
  idx : s.idx = n
  completed : ∀ f, s.completed f = false
  started : ∀ f < n, s.Started f
  none : ∀ f, n ≤ f → s.qps f = none

/-- The next flow of the pair is started, and the map of the sender finds it under its key. -/
theorem allStarted_succ {flowNum n : Nat} (h : (flowSystem twoHosts (pairFile flowNum)).Reachable s)
    (hs : AllStarted s n) (hn : n < flowNum) :
    ∃ s' q, (flowSystem twoHosts (pairFile flowNum)).Reachable s' ∧ AllStarted s' (n + 1) ∧ s'.qps n = some q ∧
      s'.qpMap 0 q.key = some n := by
  obtain ⟨rfl, hopen, hstarted, hnone⟩ := hs
  have hsrc : twoHosts.isHost 0 = true := by decide
  have hdst : twoHosts.isHost 1 = true := by decide
  have hknown : Known twoHosts (pairFile flowNum) s.idx := ⟨hn, hsrc, hdst⟩
  obtain ⟨s₁, c, hschedule, hidx₁, hcompleted₁, hqps₁, hclient, hpg⟩ :=
    schedule_enabled hknown
  have hclass : c.pg.toNat < qCnt := by
    rw [hpg]
    show (3 : UInt32).toUInt16.toNat < 8
    decide
  have hnew : s₁.qps s.idx = none := by
    rw [hqps₁]
    exact hnone s.idx (Nat.le_refl _)
  obtain ⟨s₂, q, hstart, hidx₂, hcompleted₂, hqps₂, hfound⟩ :=
    start_enabled twoHosts (pairFile flowNum) hclient hclass hnew
  have hs₁ : (flowSystem twoHosts (pairFile flowNum)).Reachable s₁ :=
    h.step (a := .scheduleFlow) hschedule
  have hs₂ : (flowSystem twoHosts (pairFile flowNum)).Reachable s₂ :=
    hs₁.step (a := .startApplication s.idx (plainQp 0)) hstart
  refine ⟨s₂, q, hs₂, ⟨by rw [hidx₂, hidx₁], ?_, fun f hf => ?_, fun f hf => ?_⟩, ?_, hfound⟩
  · rw [hcompleted₂, hcompleted₁]
    exact hopen
  · rw [Started, hqps₂, hqps₁]
    by_cases hlast : f = s.idx
    · subst hlast
      exact ⟨q, Function.update_self ..⟩
    · exact started_update s.idx f (hstarted f (by omega))
  · rw [hqps₂, hqps₁, Function.update_of_ne (by omega)]
    exact hnone f (by omega)
  · rw [hqps₂, Function.update_self]

theorem allStarted_reachable (flowNum : Nat) {n : Nat} (hn : n ≤ flowNum) :
    ∃ s, (flowSystem twoHosts (pairFile flowNum)).Reachable s ∧ AllStarted s n := by
  induction n with
  | zero => exact ⟨_, .init, rfl, fun _ => rfl, fun _ h => absurd h (Nat.not_lt_zero _), fun _ _ => rfl⟩
  | succ n ih =>
      obtain ⟨s, hs, hall⟩ := ih (Nat.le_of_succ_le hn)
      obtain ⟨s', q, hs', hall', -⟩ := allStarted_succ hs hall hn
      exact ⟨s', hs', hall'⟩

theorem pairFile_number (flowNum f : Nat) : (pairFile flowNum).number f = f :=
  Nat.count_of_forall fun _ _ => ⟨rfl, rfl⟩

/-- The flow `2^16` lines after the first one takes its place in the map, though both are unfinished. -/
theorem not_distinct_wrapped :
    ∃ s q q', (flowSystem twoHosts (pairFile 65537)).Reachable s ∧ s.qps 0 = some q ∧ s.qps 65536 = some q' ∧
      s.completed 0 = false ∧ s.completed 65536 = false ∧ q.key = q'.key ∧ s.qpMap 0 q.key = some 65536 ∧
      ¬ Distinct (pairFile 65537) s := by
  obtain ⟨s₀, hs₀, hall₀⟩ := allStarted_reachable 65537 (n := 65536) (by decide)
  obtain ⟨s, q', hs, hall, hq', hfound⟩ := allStarted_succ hs₀ hall₀ (by decide)
  obtain ⟨q, hq⟩ := hall.started 0 (by decide)
  have hn : Numbered twoHosts (pairFile 65537) s :=
    hs.invariant (numbered_start _ _) fun _ _ _ hn hnext => numbered_step hn (moved hnext)
  have hshares : (pairFile 65537).SharesKey 0 65536 :=
    ⟨rfl, by rw [pairFile_number, pairFile_number], .inl ⟨rfl, rfl⟩⟩
  have hkey : q.key = q'.key := by
    rw [HostQp.key_eq, HostQp.key_eq, (hn.qps 0 q hq).2, (hn.qps 65536 q' hq').2, FlowTuple.qpKey_inj]
    exact ⟨rfl, port_inj.mpr hshares.number, rfl⟩
  rw [← hkey] at hfound
  refine ⟨s, q, q', hs, hq, hq', hall.completed 0, hall.completed 65536, hkey, hfound, fun hdistinct => ?_⟩
  exact hdistinct.qpKeys 0 65536 q q' hq hq' (hall.completed 0) (hall.completed 65536) (by decide) rfl hkey

end FlowNet

end Lcmp

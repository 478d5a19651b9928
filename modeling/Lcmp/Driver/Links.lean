import Lcmp.Network.Fabric
import Lcmp.Routing.Candidates
import Lcmp.Switch.LinkHeadroom

/-!
# The links of the topology file

The driver goes through the lines of the topology file and installs a device at both ends of each link. What it keeps of
them are the interfaces by node and neighbour and, for DCI switches, the delays and rates by device; the config step goes
through the devices again. All of these say the same of a link.
-/

namespace Lcmp

open SwitchMmu (Accepted configSwitch headroomOf)

/-- A line of the topology file, with its rate and delay as numbers. -/
structure TopologyLine (n : Nat) where
  src : Fin n
  dst : Fin n
  rate : UInt64
  delay : UInt64
  hasRate : rate ≠ 0

/-- The devices of each node in their order, but for device 0, which is the loopback, and the tables of the links. -/
structure Wiring (n : Nat) where
  devices : Fin n → List Link
  nbr2if : Fin n → Fin n → Option Interface
  linkDelay : Fin n → UInt32 → UInt64
  linkBw : Fin n → UInt32 → UInt64

variable {n : Nat}

namespace TopologyLine

def link (line : TopologyLine n) : Link := ⟨line.rate, line.delay⟩

def interface (line : TopologyLine n) (idx : UInt32) : Interface := ⟨idx, true, line.delay, line.rate, line.hasRate⟩

/-- The line is about these two nodes. -/
def Joins (line : TopologyLine n) (a b : Fin n) : Prop := a = line.src ∧ b = line.dst ∨ a = line.dst ∧ b = line.src

theorem Joins.symm {line : TopologyLine n} {a b : Fin n} (h : line.Joins a b) : line.Joins b a := by
  rcases h with ⟨ha, hb⟩ | ⟨ha, hb⟩
  · exact .inr ⟨hb, ha⟩
  · exact .inl ⟨hb, ha⟩

end TopologyLine

namespace Wiring

def start : Wiring n where
  devices := fun _ => []
  nbr2if := fun _ _ => none
  linkDelay := fun _ _ => 0
  linkBw := fun _ _ => 0

/-- The index that `AddDevice` gives to the next device. -/
def nextIfIndex (w : Wiring n) (u : Fin n) : UInt32 := UInt32.ofNat ((w.devices u).length + 1)

def addDevice (w : Wiring n) (u : Fin n) (line : TopologyLine n) : Wiring n :=
  { w with devices := Function.update w.devices u (w.devices u ++ [line.link]) }

def setInterface (w : Wiring n) (u v : Fin n) (port : UInt32) (line : TopologyLine n) : Wiring n :=
  { w with nbr2if := Grid.set w.nbr2if u v (some (line.interface port)) }

/-- What a DCI switch keeps of a link. -/
def setLink (nodeType : Fin n → NodeType) (w : Wiring n) (u : Fin n) (port : UInt32) (line : TopologyLine n) : Wiring n :=
  { w with
    linkDelay := if nodeType u = .dciSwitch then Grid.set w.linkDelay u port line.delay else w.linkDelay
    linkBw := if nodeType u = .dciSwitch then Grid.set w.linkBw u port line.rate else w.linkBw }

/-- The body of the loop over the lines. -/
def installLink (nodeType : Fin n → NodeType) (w : Wiring n) (line : TopologyLine n) : Wiring n :=
  let portSrc := w.nextIfIndex line.src
  let w := w.addDevice line.src line
  let portDst := w.nextIfIndex line.dst
  let w := w.addDevice line.dst line
  let w := w.setInterface line.src line.dst portSrc line
  let w := w.setInterface line.dst line.src portDst line
  let w := setLink nodeType w line.src portSrc line
  setLink nodeType w line.dst portDst line

def installLinks (nodeType : Fin n → NodeType) (lines : List (TopologyLine n)) : Wiring n :=
  lines.foldl (installLink nodeType) start

/-! ### One end of a link -/

/-- All that is done for the device of `u` on a link to `v`. -/
def plug (nodeType : Fin n → NodeType) (w : Wiring n) (u v : Fin n) (line : TopologyLine n) : Wiring n :=
  setLink nodeType ((w.addDevice u line).setInterface u v (w.nextIfIndex u) line) u (w.nextIfIndex u) line

variable {nodeType : Fin n → NodeType} {w : Wiring n} {a b u v : Fin n} {line : TopologyLine n} {iface : Interface}

theorem installLink_eq (nodeType : Fin n → NodeType) (w : Wiring n) (line : TopologyLine n) :
    installLink nodeType w line =
      plug nodeType (plug nodeType w line.src line.dst line) line.dst line.src line := rfl

theorem plug_nbr2if : (plug nodeType w u v line).nbr2if = Grid.set w.nbr2if u v (some (line.interface (w.nextIfIndex u))) := rfl

theorem plug_devices_self : (plug nodeType w u v line).devices u = w.devices u ++ [line.link] := Function.update_self ..

theorem plug_devices_of_ne (h : a ≠ u) : (plug nodeType w u v line).devices a = w.devices a := Function.update_of_ne h ..

theorem length_devices_plug (nodeType : Fin n → NodeType) (w : Wiring n) (u v : Fin n) (line : TopologyLine n) (a : Fin n) :
    ((plug nodeType w u v line).devices a).length ≤ (w.devices a).length + 1 := by
  by_cases ha : a = u
  · subst ha
    rw [plug_devices_self, List.length_append]
    exact Nat.le_refl _
  · rw [plug_devices_of_ne ha]
    exact Nat.le_succ _

/-- An interface is the new one or an old one. -/
theorem plug_cases (h : (plug nodeType w u v line).nbr2if a b = some iface) :
    (a = u ∧ b = v) ∧ iface = line.interface (w.nextIfIndex u) ∨ ¬ (a = u ∧ b = v) ∧ w.nbr2if a b = some iface := by
  rw [plug_nbr2if] at h
  by_cases hcell : a = u ∧ b = v
  · obtain ⟨rfl, rfl⟩ := hcell
    rw [Grid.set_self] at h
    exact .inl ⟨⟨rfl, rfl⟩, (Option.some.inj h).symm⟩
  · rw [Grid.set_of_ne hcell] at h
    exact .inr ⟨hcell, h⟩

/-- Each interface is one of a device of its node, and no two are of the same one. -/
structure Plugged (nodeType : Fin n → NodeType) (w : Wiring n) : Prop where
  up : ∀ a b iface, w.nbr2if a b = some iface → iface.up = true
  device : ∀ a b iface, w.nbr2if a b = some iface →
    ∃ i, iface.idx.toNat = i + 1 ∧ (w.devices a)[i]? = some ⟨iface.bw, iface.delay⟩
  inj : ∀ a b c i j, w.nbr2if a b = some i → w.nbr2if a c = some j → i.idx = j.idx → b = c
  costs : ∀ a b iface, nodeType a = .dciSwitch → w.nbr2if a b = some iface →
    w.linkDelay a iface.idx = iface.delay ∧ w.linkBw a iface.idx = iface.bw

theorem plugged_start (nodeType : Fin n → NodeType) : Plugged nodeType start where
  up := fun _ _ _ h => by cases h
  device := fun _ _ _ h => by cases h
  inj := fun _ _ _ _ _ h => by cases h
  costs := fun _ _ _ _ h => by cases h

theorem nextIfIndex_toNat (hfew : (w.devices u).length + 1 < 2 ^ 32) :
    (w.nextIfIndex u).toNat = (w.devices u).length + 1 := by
  unfold nextIfIndex
  rw [UInt32.toNat_ofNat']
  exact Nat.mod_eq_of_lt hfew

/-- The index of the next device is new at its node. -/
theorem Plugged.idx_ne (h : Plugged nodeType w) (hfew : (w.devices u).length + 1 < 2 ^ 32)
    (hiface : w.nbr2if u b = some iface) : iface.idx ≠ w.nextIfIndex u := by
  obtain ⟨i, hidx, hdevice⟩ := h.device u b iface hiface
  obtain ⟨hlt, -⟩ := List.getElem?_eq_some_iff.mp hdevice
  intro hsame
  have hnext := nextIfIndex_toNat hfew
  rw [← hsame, hidx] at hnext
  omega

theorem Plugged.plug (h : Plugged nodeType w) (hfew : (w.devices u).length + 1 < 2 ^ 32) (v : Fin n) (line : TopologyLine n) :
    Plugged nodeType (plug nodeType w u v line) where
  up := by
    intro a b iface hiface
    rcases plug_cases hiface with ⟨-, rfl⟩ | ⟨-, hold⟩
    · rfl
    · exact h.up a b iface hold
  device := by
    intro a b iface hiface
    rcases plug_cases hiface with ⟨⟨rfl, rfl⟩, rfl⟩ | ⟨-, hold⟩
    · refine ⟨(w.devices a).length, nextIfIndex_toNat hfew, ?_⟩
      rw [plug_devices_self]
      exact List.getElem?_concat_length
    · obtain ⟨i, hidx, hdevice⟩ := h.device a b iface hold
      refine ⟨i, hidx, ?_⟩
      by_cases ha : a = u
      · subst ha
        obtain ⟨hlt, -⟩ := List.getElem?_eq_some_iff.mp hdevice
        rw [plug_devices_self, List.getElem?_append_left hlt]
        exact hdevice
      · rw [plug_devices_of_ne ha]
        exact hdevice
  inj := by
    intro a b c i j hi hj hidx
    rcases plug_cases hi with ⟨⟨rfl, rfl⟩, rfl⟩ | ⟨hne, hiold⟩
    · rcases plug_cases hj with ⟨⟨-, rfl⟩, -⟩ | ⟨-, hjold⟩
      · rfl
      · exact absurd hidx.symm (h.idx_ne hfew hjold)
    · rcases plug_cases hj with ⟨⟨rfl, rfl⟩, rfl⟩ | ⟨-, hjold⟩
      · exact absurd hidx (h.idx_ne hfew hiold)
      · exact h.inj a b c i j hiold hjold hidx
  costs := by
    intro a b iface hdci hiface
    rcases plug_cases hiface with ⟨⟨rfl, rfl⟩, rfl⟩ | ⟨-, hold⟩
    · simp only [Wiring.plug, setLink, if_pos hdci]
      exact ⟨Grid.set_self .., Grid.set_self ..⟩
    · have hne : ¬ (a = u ∧ iface.idx = w.nextIfIndex u) := by
        rintro ⟨rfl, hidx⟩
        exact h.idx_ne hfew hold hidx
      obtain ⟨hdelay, hbw⟩ := h.costs a b iface hdci hold
      simp only [Wiring.plug, setLink]
      split
      · exact ⟨(Grid.set_of_ne hne).trans hdelay, (Grid.set_of_ne hne).trans hbw⟩
      · exact ⟨hdelay, hbw⟩

/-! ### All lines -/

/-- The interface has the rate and the delay of the last line about the two nodes. -/
def OfLastLine (lines : List (TopologyLine n)) (a b : Fin n) (iface : Interface) : Prop :=
  ∃ front line back, lines = front ++ line :: back ∧ line.Joins a b ∧ (∀ later ∈ back, ¬ later.Joins a b) ∧
    iface.bw = line.rate ∧ iface.delay = line.delay

/-- What holds when some of the lines are done. -/
structure Wired (nodeType : Fin n → NodeType) (done : List (TopologyLine n)) (w : Wiring n) : Prop where
  plugged : Plugged nodeType w
  few : ∀ v, (w.devices v).length ≤ 2 * done.length
  joined : ∀ a b, w.nbr2if a b ≠ none ↔ ∃ line ∈ done, line.Joins a b
  last : ∀ a b iface, w.nbr2if a b = some iface → OfLastLine done a b iface
  duplex : ∀ a b i j, w.nbr2if a b = some i → w.nbr2if b a = some j → i.delay = j.delay ∧ i.bw = j.bw

theorem wired_start (nodeType : Fin n → NodeType) : Wired nodeType [] start where
  plugged := plugged_start nodeType
  few := fun _ => Nat.le_refl 0
  joined := by simp [start]
  last := fun _ _ _ h => by cases h
  duplex := fun _ _ _ _ h => by cases h

theorem installLink_of_joins (nodeType : Fin n → NodeType) (w : Wiring n) (h : line.Joins a b) :
    ∃ idx, (installLink nodeType w line).nbr2if a b = some (line.interface idx) := by
  rw [installLink_eq, plug_nbr2if, plug_nbr2if]
  by_cases hback : a = line.dst ∧ b = line.src
  · obtain ⟨rfl, rfl⟩ := hback
    exact ⟨_, Grid.set_self ..⟩
  · obtain ⟨rfl, rfl⟩ := h.resolve_right hback
    rw [Grid.set_of_ne hback, Grid.set_self]
    exact ⟨_, rfl⟩

theorem installLink_of_not_joins (h : ¬ line.Joins a b) : (installLink nodeType w line).nbr2if a b = w.nbr2if a b := by
  rw [installLink_eq, plug_nbr2if, plug_nbr2if, Grid.set_of_ne fun hback => h (.inr hback),
    Grid.set_of_ne fun hthere => h (.inl hthere)]

/-- An interface is of this line, where it joins the two nodes, or an old one. -/
theorem installLink_cases (h : (installLink nodeType w line).nbr2if a b = some iface) :
    (line.Joins a b ∧ ∃ idx, iface = line.interface idx) ∨ ¬ line.Joins a b ∧ w.nbr2if a b = some iface := by
  by_cases hjoins : line.Joins a b
  · obtain ⟨idx, hnew⟩ := installLink_of_joins nodeType w hjoins
    exact .inl ⟨hjoins, idx, Option.some.inj (h.symm.trans hnew)⟩
  · rw [installLink_of_not_joins hjoins] at h
    exact .inr ⟨hjoins, h⟩

theorem installLink_ne_none_iff :
    (installLink nodeType w line).nbr2if a b ≠ none ↔ w.nbr2if a b ≠ none ∨ line.Joins a b := by
  by_cases hjoins : line.Joins a b
  · obtain ⟨idx, hnew⟩ := installLink_of_joins nodeType w hjoins
    rw [hnew]
    exact iff_of_true (Option.some_ne_none _) (.inr hjoins)
  · rw [installLink_of_not_joins hjoins]
    exact (or_iff_left hjoins).symm

theorem length_devices_installLink (nodeType : Fin n → NodeType) (w : Wiring n) (line : TopologyLine n) (a : Fin n) :
    ((installLink nodeType w line).devices a).length ≤ (w.devices a).length + 2 := by
  have hsrc := length_devices_plug nodeType w line.src line.dst line a
  have hdst := length_devices_plug nodeType (Wiring.plug nodeType w line.src line.dst line) line.dst line.src line a
  rw [installLink_eq]
  omega

theorem Plugged.installLink (h : Plugged nodeType w) (line : TopologyLine n)
    (hfew : ∀ v, (w.devices v).length + 2 < 2 ^ 32) : Plugged nodeType (installLink nodeType w line) := by
  have hsrc := hfew line.src
  have hdst := hfew line.dst
  have hbetween := length_devices_plug nodeType w line.src line.dst line line.dst
  exact (h.plug (by omega) line.dst line).plug (by omega) line.src line

theorem ofLastLine_last (done : List (TopologyLine n)) (hjoins : line.Joins a b) (idx : UInt32) :
    OfLastLine (done ++ [line]) a b (line.interface idx) :=
  ⟨done, line, [], rfl, hjoins, by simp, rfl, rfl⟩

theorem OfLastLine.append {done : List (TopologyLine n)} (h : OfLastLine done a b iface) (hjoins : ¬ line.Joins a b) :
    OfLastLine (done ++ [line]) a b iface := by
  obtain ⟨front, last, back, rfl, hlast, hback, hvalues⟩ := h
  refine ⟨front, last, back ++ [line], by rw [List.append_assoc, List.cons_append], hlast, ?_, hvalues⟩
  intro later hlater
  rcases List.mem_append.mp hlater with hold | hnew
  · exact hback later hold
  · exact List.mem_singleton.mp hnew ▸ hjoins

theorem Wired.installLink {done : List (TopologyLine n)} (h : Wired nodeType done w) (hfew : 2 * (done.length + 1) < 2 ^ 32)
    (line : TopologyLine n) : Wired nodeType (done ++ [line]) (installLink nodeType w line) where
  plugged := by
    refine h.plugged.installLink line fun v => ?_
    have hold := h.few v
    omega
  few := by
    intro v
    have hold := h.few v
    have hnew := length_devices_installLink nodeType w line v
    rw [List.length_append, List.length_singleton]
    omega
  joined := by
    intro a b
    have hlines : (∃ l ∈ done ++ [line], l.Joins a b) ↔ (∃ l ∈ done, l.Joins a b) ∨ line.Joins a b := by
      simp only [List.mem_append, List.mem_singleton, or_and_right, exists_or, exists_eq_left]
    rw [hlines, installLink_ne_none_iff, h.joined a b]
  last := by
    intro a b iface hiface
    rcases installLink_cases hiface with ⟨hjoins, idx, rfl⟩ | ⟨hjoins, hold⟩
    · exact ofLastLine_last done hjoins idx
    · exact (h.last a b iface hold).append hjoins
  duplex := by
    intro a b i j hi hj
    rcases installLink_cases hi with ⟨hjoins, idx, rfl⟩ | ⟨hjoins, hiold⟩
    · rcases installLink_cases hj with ⟨-, idx', rfl⟩ | ⟨hback, -⟩
      · exact ⟨rfl, rfl⟩
      · exact absurd hjoins.symm hback
    · rcases installLink_cases hj with ⟨hback, -⟩ | ⟨-, hjold⟩
      · exact absurd hback.symm hjoins
      · exact h.duplex a b i j hiold hjold

theorem wired_foldl {done lines : List (TopologyLine n)} (hfew : 2 * (done.length + lines.length) < 2 ^ 32)
    (h : Wired nodeType done w) : Wired nodeType (done ++ lines) (lines.foldl (Wiring.installLink nodeType) w) := by
  induction lines generalizing done w with
  | nil =>
      rw [List.append_nil]
      exact h
  | cons line lines ih =>
      rw [List.length_cons] at hfew
      have hnext := h.installLink (by omega) line
      have hrest := ih (by rw [List.length_append, List.length_singleton]; omega) hnext
      rw [List.append_assoc, List.singleton_append] at hrest
      exact hrest

theorem wired_installLinks (nodeType : Fin n → NodeType) {lines : List (TopologyLine n)} (hfew : 2 * lines.length < 2 ^ 32) :
    Wired nodeType lines (installLinks nodeType lines) := by
  have hall := wired_foldl (by simpa using hfew) (wired_start nodeType)
  rw [List.nil_append] at hall
  exact hall

/-! ### The topology -/

theorem Wired.linkUp_iff {lines : List (TopologyLine n)} (h : Wired nodeType lines w) (a b : Fin n) :
    Lcmp.linkUp w.nbr2if a b = true ↔ ∃ line ∈ lines, line.Joins a b := by
  rw [← h.joined a b]
  unfold Lcmp.linkUp
  cases hiface : w.nbr2if a b with
  | none => simp
  | some iface =>
      rw [Option.any_some, h.plugged.up a b iface hiface]
      simp

/-- The nodes and the links, in the order of the map of nodes. -/
def Wired.topology {lines : List (TopologyLine n)} (h : Wired nodeType lines w) (order : List (Fin n)) (horder : order.Nodup)
    (hall : ∀ v, v ∈ order) : Topology n where
  nodeType := nodeType
  nbr2if := w.nbr2if
  order := order
  order_nodup := horder
  mem_order := hall
  symm := by
    intro a b
    rw [Bool.eq_iff_iff, h.linkUp_iff, h.linkUp_iff]
    constructor
    · rintro ⟨line, hline, hjoins⟩
      exact ⟨line, hline, hjoins.symm⟩
    · rintro ⟨line, hline, hjoins⟩
      exact ⟨line, hline, hjoins.symm⟩
  device := h.plugged.inj

/-- What is known of an interface of `a` is what the last line about the two nodes says: the device that has its index is
on that link, a DCI switch computes its costs from the rate and the delay of that link, and the config step takes the
headroom of the port from them. -/
structure LinkAgrees (nodeType : Fin n → NodeType) (lines : List (TopologyLine n)) (w : Wiring n) (a b : Fin n)
    (iface : Interface) : Prop where
  last : OfLastLine lines a b iface
  device : ∃ i, iface.idx.toNat = i + 1 ∧ (w.devices a)[i]? = some ⟨iface.bw, iface.delay⟩
  costs : nodeType a = .dciSwitch → w.linkDelay a iface.idx = iface.delay ∧ w.linkBw a iface.idx = iface.bw
  headroom : iface.idx.toNat < pCnt → ∀ maps nicRate bufferSize m m', Accepted maps (w.devices a) →
    configSwitch maps nicRate bufferSize m (w.devices a) = .ok m' →
    m'.headroom (toPort iface.idx) = headroomOf ⟨iface.bw, iface.delay⟩

theorem Wired.agrees {lines : List (TopologyLine n)} (h : Wired nodeType lines w) (hiface : w.nbr2if a b = some iface) :
    LinkAgrees nodeType lines w a b iface where
  last := h.last a b iface hiface
  device := h.plugged.device a b iface hiface
  costs := fun hdci => h.plugged.costs a b iface hdci hiface
  headroom := by
    intro hports maps nicRate bufferSize m m' haccepted hm
    obtain ⟨i, hidx, hdevice⟩ := h.plugged.device a b iface hiface
    obtain ⟨hlt, hlink⟩ := List.getElem?_eq_some_iff.mp hdevice
    have hport : (toPort iface.idx).val = i + 1 := (Nat.mod_eq_of_lt hports).trans hidx
    rw [SwitchMmu.configSwitch_headroom haccepted hm hlt hport, hlink]

/-- The links of the topology file. Whatever its lines are, up to the number of devices that an index has room for: the
interfaces that the driver keeps of them make a topology with the same rate and delay in both directions, in which a link
is up between the nodes of a line and no others, and the tables of the routes, of the costs and of the config step agree
on every interface. -/
theorem links_installed (nodeType : Fin n → NodeType) {lines : List (TopologyLine n)} (hfew : 2 * lines.length < 2 ^ 32)
    {order : List (Fin n)} (horder : order.Nodup) (hall : ∀ v, v ∈ order) :
    ∃ t : Topology n, t.nodeType = nodeType ∧ t.order = order ∧ t.nbr2if = (installLinks nodeType lines).nbr2if ∧
      t.Duplex ∧ (∀ a b, t.linkUp a b = true ↔ ∃ line ∈ lines, line.Joins a b) ∧
      ∀ a b iface, t.nbr2if a b = some iface → LinkAgrees nodeType lines (installLinks nodeType lines) a b iface := by
  have hwired := wired_installLinks nodeType hfew
  exact ⟨hwired.topology order horder hall, rfl, rfl, rfl, hwired.duplex, hwired.linkUp_iff,
    fun _ _ _ hiface => hwired.agrees hiface⟩

/-- A DCI switch between two hosts. -/
def hostsAround (border : Fin n) : Fin n → NodeType := fun v => if v = border then .dciSwitch else .host

def twoLines (left border right : Fin n) : List (TopologyLine n) :=
  [⟨left, border, 100000000000, 1000, sampleBw_ne_zero⟩, ⟨border, right, 100000000000, 2000, sampleBw_ne_zero⟩]

/-- The second device of the DCI switch has the delay of the second line. -/
theorem links_installed_two : ∃ t : Topology 3, t.linkUp 0 1 = true ∧ t.linkUp 0 2 = false ∧
    (∃ iface, t.nbr2if 1 2 = some iface ∧ iface.idx = 2) ∧
      (installLinks (hostsAround (1 : Fin 3)) (twoLines 0 1 2)).linkDelay 1 2 = 2000 := by
  obtain ⟨t, -, -, hnbr, -, hup, hagrees⟩ := links_installed (hostsAround (1 : Fin 3))
    (show 2 * (twoLines 0 1 2).length < 2 ^ 32 by decide) (List.nodup_finRange 3) List.mem_finRange
  have hiface : t.nbr2if 1 2 = some (TopologyLine.interface (n := 3) ⟨1, 2, 100000000000, 2000, sampleBw_ne_zero⟩ 2) := by
    rw [hnbr]
    rfl
  refine ⟨t, (hup 0 1).mpr ⟨_, List.mem_cons_self, .inl ⟨rfl, rfl⟩⟩, ?_, ⟨_, hiface, rfl⟩, ?_⟩
  · rw [← Bool.not_eq_true, hup]
    simp [twoLines, TopologyLine.Joins]
  · exact ((hagrees 1 2 _ hiface).costs rfl).1

end Wiring

end Lcmp

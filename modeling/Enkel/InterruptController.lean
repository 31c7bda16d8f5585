import Enkel.Outcome
import Enkel.RequestRuns
import Mathlib.Data.BitVec
import Mathlib.Algebra.Ring.Nat

/-!
The two interrupt controllers (8259A) and the kernel code that programs them. RemapPIC
gives the sixteen lines the vectors from 0x20 on, and SetIRQEnabled changes one bit of the
masks. Every handler ends with one command to the first controller, which takes the line
with the highest priority out of service. Nothing is ever sent to the second controller, so
its lines stay in service once their interrupts have been taken.
-/
namespace Enkel.InterruptController

open Outcome

abbrev Lines := BitVec 8

/-- The words of an initialization sequence after the first one. -/
inductive InitWord
  | offset
  | cascade
  | mode
deriving DecidableEq, Repr

/-- One controller. What it still expects of an initialization sequence goes to the data
port, as the mask does otherwise. -/
structure Pic where
  request : Lines
  service : Lines
  mask : Lines
  offset : Lines
  cascade : Lines
  mode : Lines
  expects : List InitWord
deriving DecidableEq, Repr

namespace Pic

/-- In service up to a line, or of the same priority. -/
def Busy (p : Pic) (i : ℕ) : Prop := ∃ j ≤ i, p.service.getLsbD j = true

instance (p : Pic) (i : ℕ) : Decidable (p.Busy i) :=
  decidable_of_iff (∃ j < i + 1, p.service.getLsbD j = true)
    (exists_congr fun _ => and_congr_left' Nat.lt_succ_iff)

/-- The line whose interrupt the controller asks for, in fully nested mode. -/
def pending (p : Pic) (requests : Lines) : Option ℕ :=
  (List.range 8).find? fun i =>
    requests.getLsbD i && !p.mask.getLsbD i && decide ¬p.Busy i

/-- An interrupt is taken; with automatic ends of interrupts the line is not in service. -/
def acknowledge (p : Pic) (i : ℕ) : Pic :=
  { p with
    request := p.request &&& ~~~(1#8 <<< i)
    service := if p.mode.getLsbD 1 then p.service else p.service ||| 1#8 <<< i }

/-- The line in service with the highest priority. -/
def highest (p : Pic) : Option ℕ := (List.range 8).find? fun i => p.service.getLsbD i

def endOfInterrupt (p : Pic) : Pic :=
  match p.highest with
  | none => p
  | some i => { p with service := p.service &&& ~~~(1#8 <<< i) }

/-- The command port. Of the commands behind an initialization only the ends of interrupts
that rotate no priorities change anything here. -/
def command (p : Pic) (value : Lines) : Pic :=
  if value.getLsbD 4 then
    { p with
      request := 0
      mask := 0
      mode := 0
      expects := .offset :: ((if value.getLsbD 1 then [] else [.cascade]) ++
        (if value.getLsbD 0 then [.mode] else [])) }
  else if value.getLsbD 3 then p
  else if value >>> 5 = 1 then p.endOfInterrupt
  else if value >>> 5 = 3 then
    { p with service := p.service &&& ~~~(1#8 <<< (value &&& 7).toNat) }
  else p

/-- The data port. -/
def data (p : Pic) (value : Lines) : Pic :=
  match p.expects with
  | [] => { p with mask := value }
  | .offset :: rest =>
    { p with
      offset := value &&& 0xF8
      expects := rest }
  | .cascade :: rest =>
    { p with
      cascade := value
      expects := rest }
  | .mode :: rest =>
    { p with
      mode := value
      expects := rest }

end Pic

structure Pics where
  master : Pic
  slave : Pic
deriving DecidableEq, Repr

inductive Port
  | pic1Command
  | pic1Data
  | pic2Command
  | pic2Data
deriving DecidableEq, Repr

def outPort (port : Port) (value : Lines) (p : Pics) : Pics :=
  match port with
  | .pic1Command => { p with master := p.master.command value }
  | .pic1Data => { p with master := p.master.data value }
  | .pic2Command => { p with slave := p.slave.command value }
  | .pic2Data => { p with slave := p.slave.data value }

/-- The data ports read as the masks. -/
def inPort (port : Port) (p : Pics) : Lines :=
  match port with
  | .pic1Command => p.master.request
  | .pic1Data => p.master.mask
  | .pic2Command => p.slave.request
  | .pic2Data => p.slave.mask

def remapPIC (p : Pics) : Pics :=
  let a1 := inPort .pic2Data p
  let a21 := inPort .pic1Data p
  let p := outPort .pic1Command 0x11 p
  let p := outPort .pic2Command 0x11 p
  let p := outPort .pic1Data 0x20 p
  let p := outPort .pic2Data 0x28 p
  let p := outPort .pic1Data 0x04 p
  let p := outPort .pic2Data 0x02 p
  let p := outPort .pic1Data 0x01 p
  let p := outPort .pic2Data 0x01 p
  let p := outPort .pic1Data a21 p
  outPort .pic2Data a1 p

inductive Fault
  | invalidIRQ
  /-- No such interrupt line, or no interrupt, or no handler that could return. -/
  | impossible
deriving DecidableEq, Repr

def setIRQEnabled (irq : ℕ) (enabled : Bool) (p : Pics) : Except Fault Pics := do
  require (irq ≤ 15) .invalidIRQ
  let port := if irq ≥ 8 then Port.pic2Data else .pic1Data
  let irq := if irq ≥ 8 then irq - 8 else irq
  let mask := inPort port p
  let mask := if enabled then mask &&& ~~~(1#8 <<< irq) else mask ||| 1#8 <<< irq
  return outPort port mask p

def initPIC (p : Pics) : Except Fault Pics := setIRQEnabled 0 true (remapPIC p)

def disablePIC (p : Pics) : Pics := outPort .pic2Data 0xFF (outPort .pic1Data 0xFF p)

/-- What the first controller is asked for. The second one is on line 2. -/
def Pics.masterRequests (p : Pics) : Lines :=
  match p.slave.pending p.slave.request with
  | none => p.master.request
  | some _ => p.master.request ||| 1#8 <<< 2

/-- The vector comes from the second controller if the first one has it on this line, and
the second one knows the line as its own. -/
def Pics.answer (i : ℕ) (p : Pics) : Option (ℕ × Pics) :=
  if p.master.cascade.getLsbD i = true then
    if (p.slave.cascade &&& 7).toNat = i then
      (p.slave.pending p.slave.request).map fun j =>
        (p.slave.offset.toNat + j, ⟨p.master.acknowledge i, p.slave.acknowledge j⟩)
    else none
  else some (p.master.offset.toNat + i, ⟨p.master.acknowledge i, p.slave⟩)

/-- The processor takes an interrupt, and gets its vector. -/
def Pics.take (p : Pics) : Option (ℕ × Pics) :=
  (p.master.pending p.masterRequests).bind fun i => p.answer i

/-- The controllers, the vectors of the handlers that have not returned, the last one
first, and those of all the interrupts that have been taken. -/
structure System where
  pics : Pics
  handlers : List ℕ
  taken : List ℕ
deriving DecidableEq, Repr

inductive Event
  | raise (line : ℕ)
  | take
  /-- A handler gets to its end. -/
  | finish
  | setIRQEnabled (irq : ℕ) (enabled : Bool)
deriving DecidableEq, Repr

/-- A device asks for an interrupt. -/
def raise (line : ℕ) (p : Pics) : Pics :=
  if 8 ≤ line then
    { p with slave := { p.slave with request := p.slave.request ||| 1#8 <<< (line - 8) } }
  else { p with master := { p.master with request := p.master.request ||| 1#8 <<< line } }

def step (e : Event) (s : System) : Except Fault System :=
  match e with
  | .raise line => do
    require (line ≤ 15 ∧ line ≠ 2) .impossible
    return { s with pics := raise line s.pics }
  | .take =>
    match s.pics.take with
    | none => throw .impossible
    | some (vector, pics) => return ⟨pics, vector :: s.handlers, vector :: s.taken⟩
  | .finish =>
    match s.handlers with
    | [] => throw .impossible
    | _ :: handlers =>
      return { s with
        pics := outPort .pic1Command 0x20 s.pics
        handlers := handlers }
  | .setIRQEnabled irq enabled => do
    let pics ← setIRQEnabled irq enabled s.pics
    return { s with pics := pics }

section Bits
variable {a : Lines} {i j : ℕ}

theorem getLsbD_clear :
    (a &&& ~~~(1#8 <<< i)).getLsbD j = (a.getLsbD j && decide (j ≠ i)) := by
  by_cases hj : j < 8
  · simp only [BitVec.getLsbD_and, BitVec.getLsbD_not, BitVec.getLsbD_shiftLeft,
      BitVec.getLsbD_one, hj]
    by_cases h : j = i
    · simp [h]
    · by_cases hlt : j < i
      · simp [h, hlt]
      · have hsub : ¬ j - i = 0 := by omega
        simp [h, hlt, hsub]
  · simp [BitVec.getLsbD_of_ge _ _ (Nat.le_of_not_lt hj)]

theorem getLsbD_insert (hi : i < 8) :
    (a ||| 1#8 <<< i).getLsbD j = (a.getLsbD j || decide (j = i)) := by
  by_cases hj : j < 8
  · simp only [BitVec.getLsbD_or, BitVec.getLsbD_shiftLeft, BitVec.getLsbD_one, hj]
    by_cases h : j = i
    · simp [h, hi]
    · by_cases hlt : j < i
      · simp [h, hlt]
      · have hsub : ¬ j - i = 0 := by omega
        simp [h, hlt, hsub]
  · have hne : j ≠ i := by omega
    simp [BitVec.getLsbD_of_ge _ _ (Nat.le_of_not_lt hj), hne]

/-- The bit that SetIRQEnabled changes, and the others. -/
theorem getLsbD_mask {enabled : Bool} (hi : i < 8) :
    (if enabled = true then a &&& ~~~(1#8 <<< i) else a ||| 1#8 <<< i).getLsbD j =
      if j = i then !enabled else a.getLsbD j := by
  cases enabled with
  | false =>
    rw [if_neg (by decide), getLsbD_insert hi]
    by_cases h : j = i <;> simp [h]
  | true =>
    rw [if_pos rfl, getLsbD_clear]
    by_cases h : j = i <;> simp [h]

end Bits

section Pic
variable {p : Pic} {requests : Lines} {i j : ℕ}

theorem Pic.of_pending (h : p.pending requests = some i) :
    i < 8 ∧ requests.getLsbD i = true ∧ p.mask.getLsbD i = false ∧ ¬p.Busy i := by
  obtain ⟨hp, hi, -⟩ := List.find?_range_eq_some.mp h
  simp only [Bool.and_eq_true, Bool.not_eq_true', decide_eq_true_eq] at hp
  exact ⟨List.mem_range.mp hi, hp.1.1, hp.1.2, hp.2⟩

theorem Pic.highest_eq (hi : i < 8) (hservice : p.service.getLsbD i = true)
    (hfirst : ∀ j < i, p.service.getLsbD j = false) : p.highest = some i := by
  apply List.find?_range_eq_some.mpr
  refine ⟨hservice, List.mem_range.mpr hi, fun j hj => ?_⟩
  rw [hfirst j hj]
  rfl

/-- The command that every handler ends with takes one line out of service. -/
theorem Pic.command_end (hi : i < 8) (hservice : p.service.getLsbD i = true)
    (hfirst : ∀ j < i, p.service.getLsbD j = false) :
    p.command 0x20 = { p with service := p.service &&& ~~~(1#8 <<< i) } := by
  have hend : p.command 0x20 = p.endOfInterrupt := rfl
  rw [hend, Pic.endOfInterrupt, Pic.highest_eq hi hservice hfirst]

theorem Pic.service_acknowledge (hmode : p.mode = 1) :
    (p.acknowledge i).service = p.service ||| 1#8 <<< i := by
  unfold Pic.acknowledge
  rw [hmode]
  rfl

theorem Pic.data_eq {value : Lines} (h : p.expects = []) :
    p.data value = { p with mask := value } := by
  unfold Pic.data
  rw [h]

end Pic

/-- As RemapPIC leaves the controllers. -/
structure Configured (p : Pics) : Prop where
  masterOffset : p.master.offset = 0x20
  slaveOffset : p.slave.offset = 0x28
  masterCascade : p.master.cascade = 4
  slaveCascade : p.slave.cascade = 2
  masterMode : p.master.mode = 1
  slaveMode : p.slave.mode = 1
  masterReady : p.master.expects = []
  slaveReady : p.slave.expects = []

/-- What the processor can be given: an interrupt of the first controller, or one of the
second controller through line 2. -/
inductive Takes (p : Pics) : ℕ → Pics → Prop
  | master {i : ℕ} (hline : i ≠ 2) (hpending : p.master.pending p.masterRequests = some i) :
    Takes p (0x20 + i) ⟨p.master.acknowledge i, p.slave⟩
  | slave {j : ℕ} (hline : p.master.pending p.masterRequests = some 2)
      (hpending : p.slave.pending p.slave.request = some j) :
    Takes p (0x28 + j) ⟨p.master.acknowledge 2, p.slave.acknowledge j⟩

/-- Whether a line is masked. -/
def maskBit (line : ℕ) (p : Pics) : Bool :=
  if 8 ≤ line then p.slave.mask.getLsbD (line - 8) else p.master.mask.getLsbD line

section Configured
variable {p p' : Pics} {v irq line : ℕ} {enabled : Bool}

theorem configured_remapPIC (p : Pics) : Configured (remapPIC p) :=
  ⟨rfl, rfl, rfl, rfl, rfl, rfl, rfl, rfl⟩

theorem service_remapPIC (p : Pics) :
    (remapPIC p).master.service = p.master.service ∧
      (remapPIC p).slave.service = p.slave.service := ⟨rfl, rfl⟩

theorem mask_remapPIC (p : Pics) :
    (remapPIC p).master.mask = p.master.mask ∧ (remapPIC p).slave.mask = p.slave.mask := ⟨rfl, rfl⟩

theorem Configured.takes (h : Configured p) (htake : p.take = some (v, p')) : Takes p v p' := by
  obtain ⟨i, hi, hanswer⟩ := Option.bind_eq_some_iff.mp htake
  have hlt := (Pic.of_pending hi).1
  unfold Pics.answer at hanswer
  rw [h.masterCascade, h.slaveCascade, h.masterOffset, h.slaveOffset] at hanswer
  by_cases htwo : i = 2
  · subst htwo
    obtain ⟨j, hj, hpair⟩ := Option.map_eq_some_iff.mp hanswer
    cases hpair
    exact .slave hi hj
  · have hbit : (4 : Lines).getLsbD i = false := by
      have hall : ∀ i < 8, i ≠ 2 → (4 : Lines).getLsbD i = false := by decide
      exact hall i hlt htwo
    rw [if_neg (by rw [hbit]; decide)] at hanswer
    cases hanswer
    exact .master htwo hi

/-- SetIRQEnabled changes masks, and nothing else. -/
theorem Configured.setIRQEnabled (h : Configured p)
    (hset : setIRQEnabled irq enabled p = .ok p') : irq ≤ 15 ∧
      (∃ m s, p' = ⟨{ p.master with mask := m }, { p.slave with mask := s }⟩) ∧
      ∀ line ≤ 15, maskBit line p' = if line = irq then !enabled else maskBit line p := by
  obtain ⟨u, hirq, hset⟩ := bind_eq_ok.mp hset
  have hle := require_eq_ok.mp hirq
  cases pure_eq_ok.mp hset
  refine ⟨hle, ?_⟩
  by_cases hge : irq ≥ 8
  · simp only [if_pos hge, outPort, inPort, Pic.data_eq h.slaveReady]
    refine ⟨⟨p.master.mask, _, rfl⟩, fun line hline => ?_⟩
    unfold maskBit
    rw [getLsbD_mask (by omega)]
    split_ifs <;> first | rfl | omega
  · simp only [if_neg hge, outPort, inPort, Pic.data_eq h.masterReady]
    refine ⟨⟨_, p.slave.mask, rfl⟩, fun line hline => ?_⟩
    unfold maskBit
    rw [getLsbD_mask (by omega)]
    split_ifs <;> first | rfl | omega

theorem raise_eq (line : ℕ) (p : Pics) : ∃ a b,
    raise line p = ⟨{ p.master with request := a }, { p.slave with request := b }⟩ := by
  unfold raise
  split_ifs
  · exact ⟨p.master.request, _, rfl⟩
  · exact ⟨_, p.slave.request, rfl⟩

/-- Requests and masks are no part of the configuration. -/
theorem Configured.of_requests {a b c d : Lines} (h : Configured p) :
    Configured ⟨{ p.master with request := a, mask := b }, { p.slave with request := c, mask := d }⟩ :=
  ⟨h.masterOffset, h.slaveOffset, h.masterCascade, h.slaveCascade, h.masterMode, h.slaveMode,
    h.masterReady, h.slaveReady⟩

/-- The line of the first controller that a vector comes through. -/
def lineOf (vector : ℕ) : ℕ := if vector < 0x28 then vector - 0x20 else 2

theorem Takes.lineOf_eq (h : Takes p v p') :
    p.master.pending p.masterRequests = some (lineOf v) ∧
      p'.master = p.master.acknowledge (lineOf v) := by
  cases h with
  | @master i hline hpending =>
    have hlt := (Pic.of_pending hpending).1
    have hline : lineOf (0x20 + i) = i := by
      unfold lineOf
      rw [if_pos (by omega)]
      omega
    rw [hline]
    exact ⟨hpending, rfl⟩
  | @slave j hline hpending =>
    have htwo : lineOf (0x28 + j) = 2 := if_neg (by omega)
    rw [htwo]
    exact ⟨hline, rfl⟩

theorem Takes.range (h : Takes p v p') : 0x20 ≤ v ∧ v < 0x30 := by
  cases h with
  | master hline hpending =>
    have hlt := (Pic.of_pending hpending).1
    omega
  | slave hline hpending =>
    have hlt := (Pic.of_pending hpending).1
    omega

theorem Takes.configured (h : Takes p v p') (hp : Configured p) : Configured p' := by
  cases h <;>
  exact ⟨hp.masterOffset, hp.slaveOffset, hp.masterCascade, hp.slaveCascade, hp.masterMode,
    hp.slaveMode, hp.masterReady, hp.slaveReady⟩

end Configured

section Runs
variable {s s' : System} {e : Event} {v : ℕ}

/-- What one event can do. -/
inductive Steps (s : System) : Event → System → Prop
  | raise {line : ℕ} (hline : line ≤ 15 ∧ line ≠ 2) :
    Steps s (.raise line) { s with pics := raise line s.pics }
  | take {v : ℕ} {pics : Pics} (htakes : Takes s.pics v pics) :
    Steps s .take ⟨pics, v :: s.handlers, v :: s.taken⟩
  | finish {v : ℕ} {handlers : List ℕ} (hhandlers : s.handlers = v :: handlers) :
    Steps s .finish ⟨outPort .pic1Command 0x20 s.pics, handlers, s.taken⟩
  | setIRQEnabled {irq : ℕ} {enabled : Bool} {pics : Pics}
    (hset : setIRQEnabled irq enabled s.pics = .ok pics) :
    Steps s (.setIRQEnabled irq enabled) { s with pics := pics }

theorem steps_of_step (hp : Configured s.pics) (h : step e s = .ok s') : Steps s e s' := by
  cases e with
  | raise line =>
    obtain ⟨u, hline, h⟩ := bind_eq_ok.mp h
    cases pure_eq_ok.mp h
    exact .raise (require_eq_ok.mp hline)
  | take =>
    simp only [step] at h
    split at h
    · cases h
    · rename_i v pics htake
      cases h
      exact .take (hp.takes htake)
  | finish =>
    simp only [step] at h
    split at h
    · cases h
    · rename_i v handlers hhandlers
      cases h
      exact .finish hhandlers
  | setIRQEnabled irq enabled =>
    obtain ⟨pics, hset, h⟩ := bind_eq_ok.mp h
    cases pure_eq_ok.mp h
    exact .setIRQEnabled hset

theorem Configured.step (hp : Configured s.pics) (hstep : Steps s e s') : Configured s'.pics := by
  cases hstep with
  | @raise line hline =>
    obtain ⟨a, b, heq⟩ := raise_eq line s.pics
    rw [heq]
    exact hp.of_requests
  | take htakes => exact htakes.configured hp
  | finish hhandlers =>
    have hend : s.pics.master.command 0x20 = s.pics.master.endOfInterrupt := rfl
    unfold outPort
    dsimp only
    rw [hend]
    unfold Pic.endOfInterrupt
    split <;>
    exact ⟨hp.masterOffset, hp.slaveOffset, hp.masterCascade, hp.slaveCascade, hp.masterMode,
      hp.slaveMode, hp.masterReady, hp.slaveReady⟩
  | setIRQEnabled hset =>
    obtain ⟨-, ⟨m, n, rfl⟩, -⟩ := hp.setIRQEnabled hset
    exact hp.of_requests

/-- The lines in service in the first controller are those of the handlers that have not
returned; a handler is only interrupted by lines of higher priority. -/
structure Nested (s : System) : Prop where
  configured : Configured s.pics
  service : ∀ j < 8, s.pics.master.service.getLsbD j = true ↔ j ∈ s.handlers.map lineOf
  order : (s.handlers.map lineOf).Pairwise (· < ·)
  range : ∀ j ∈ s.handlers.map lineOf, j < 8

theorem Nested.take {pics : Pics} (h : Nested s) (htakes : Takes s.pics v pics) :
    Nested ⟨pics, v :: s.handlers, v :: s.taken⟩ := by
  obtain ⟨hpending, hmaster⟩ := htakes.lineOf_eq
  obtain ⟨hlt, -, -, hidle⟩ := Pic.of_pending hpending
  refine ⟨htakes.configured h.configured, fun j hj => ?_, List.pairwise_cons.mpr ⟨?_, h.order⟩, ?_⟩
  · change pics.master.service.getLsbD j = true ↔ j ∈ lineOf v :: s.handlers.map lineOf
    rw [hmaster, Pic.service_acknowledge h.configured.masterMode, getLsbD_insert hlt,
      List.mem_cons, ← h.service j hj]
    simp only [Bool.or_eq_true, decide_eq_true_eq]
    exact or_comm
  · intro j hj
    apply Nat.lt_of_not_le
    intro hle
    exact hidle ⟨j, hle, (h.service j (h.range j hj)).mpr hj⟩
  · intro j hj
    rcases List.mem_cons.mp hj with rfl | hj
    · exact hlt
    · exact h.range j hj

/-- The command at the end of a handler takes its own line out of service. -/
theorem Nested.finish_eq {handlers : List ℕ} (h : Nested s) (hhandlers : s.handlers = v :: handlers) :
    outPort .pic1Command 0x20 s.pics =
      { s.pics with
        master := { s.pics.master with
          service := s.pics.master.service &&& ~~~(1#8 <<< lineOf v) } } := by
  have hmem (j : ℕ) : j ∈ s.handlers.map lineOf ↔ j = lineOf v ∨ j ∈ handlers.map lineOf := by
    rw [hhandlers, List.map_cons, List.mem_cons]
  have hlt : lineOf v < 8 := h.range _ ((hmem _).mpr (Or.inl rfl))
  have horder := h.order
  rw [hhandlers, List.map_cons, List.pairwise_cons] at horder
  have hfirst : ∀ j < lineOf v, s.pics.master.service.getLsbD j = false := by
    intro j hj
    apply Bool.eq_false_iff.mpr
    intro hbit
    rcases (hmem j).mp ((h.service j (by omega)).mp hbit) with rfl | hj'
    · exact Nat.lt_irrefl _ hj
    · exact Nat.lt_asymm hj (horder.1 j hj')
  unfold outPort
  dsimp only
  rw [Pic.command_end hlt ((h.service _ hlt).mpr ((hmem _).mpr (Or.inl rfl))) hfirst]

theorem Nested.finish {handlers : List ℕ} (h : Nested s) (hhandlers : s.handlers = v :: handlers) :
    Nested ⟨outPort .pic1Command 0x20 s.pics, handlers, s.taken⟩ := by
  have horder := h.order
  rw [hhandlers, List.map_cons, List.pairwise_cons] at horder
  have hc := h.configured
  rw [h.finish_eq hhandlers]
  refine ⟨⟨hc.masterOffset, hc.slaveOffset, hc.masterCascade, hc.slaveCascade, hc.masterMode,
    hc.slaveMode, hc.masterReady, hc.slaveReady⟩, fun j hj => ?_, horder.2, fun j hj => ?_⟩
  · have hservice := h.service j hj
    rw [hhandlers, List.map_cons, List.mem_cons] at hservice
    change (s.pics.master.service &&& ~~~(1#8 <<< lineOf v)).getLsbD j = true ↔ _
    rw [getLsbD_clear]
    simp only [Bool.and_eq_true, decide_eq_true_eq, hservice]
    constructor
    · rintro ⟨rfl | hj', hne⟩
      · exact absurd rfl hne
      · exact hj'
    · intro hj'
      exact ⟨Or.inr hj', (horder.1 j hj').ne'⟩
  · apply h.range j
    rw [hhandlers]
    exact List.mem_cons_of_mem _ hj

theorem Nested.step (h : Nested s) (hstep : Steps s e s') : Nested s' := by
  cases hstep with
  | @raise line hline =>
    obtain ⟨a, b, heq⟩ := raise_eq line s.pics
    rw [heq]
    exact ⟨h.configured.of_requests, h.service, h.order, h.range⟩
  | take htakes => exact h.take htakes
  | finish hhandlers => exact h.finish hhandlers
  | setIRQEnabled hset =>
    obtain ⟨-, ⟨m, n, rfl⟩, -⟩ := h.configured.setIRQEnabled hset
    exact ⟨h.configured.of_requests, h.service, h.order, h.range⟩

/-- The vectors that have been taken, and what they leave in the second controller. -/
structure Spent (s : System) : Prop where
  configured : Configured s.pics
  range : ∀ v ∈ s.taken, 0x20 ≤ v ∧ v < 0x30
  service : ∀ v ∈ s.taken, 0x28 ≤ v → s.pics.slave.service.getLsbD (v - 0x28) = true
  order : (s.taken.filter fun v => 0x28 ≤ v).Pairwise (· < ·)

theorem Spent.take {pics : Pics} (h : Spent s) (htakes : Takes s.pics v pics) :
    Spent ⟨pics, v :: s.handlers, v :: s.taken⟩ := by
  have hrange : ∀ w ∈ v :: s.taken, 0x20 ≤ w ∧ w < 0x30 := by
    intro w hw
    rcases List.mem_cons.mp hw with rfl | hw
    · exact htakes.range
    · exact h.range w hw
  refine ⟨htakes.configured h.configured, hrange, ?_, ?_⟩
  · intro w hw hle
    cases htakes with
    | @master i hline hpending =>
      have hlt := (Pic.of_pending hpending).1
      rcases List.mem_cons.mp hw with rfl | hw
      · omega
      · exact h.service w hw hle
    | @slave j hline hpending =>
      have hlt := (Pic.of_pending hpending).1
      change (s.pics.slave.acknowledge j).service.getLsbD (w - 0x28) = true
      rw [Pic.service_acknowledge h.configured.slaveMode, getLsbD_insert hlt]
      rcases List.mem_cons.mp hw with rfl | hw
      · simp
      · rw [h.service w hw hle]
        rfl
  · cases htakes with
    | @master i hline hpending =>
      have hlt := (Pic.of_pending hpending).1
      rw [List.filter_cons_of_neg (by simp; omega)]
      exact h.order
    | @slave j hline hpending =>
      obtain ⟨hlt, -, -, hidle⟩ := Pic.of_pending hpending
      rw [List.filter_cons_of_pos (by simp)]
      refine List.pairwise_cons.mpr ⟨fun w hw => ?_, h.order⟩
      obtain ⟨hmem, hle⟩ := List.mem_filter.mp hw
      have hle' := of_decide_eq_true hle
      apply Nat.lt_of_not_le
      intro hback
      exact hidle ⟨w - 0x28, by omega, h.service w hmem hle'⟩

theorem Spent.step (h : Spent s) (hstep : Steps s e s') : Spent s' := by
  have hp := h.configured.step hstep
  cases hstep with
  | @raise line hline =>
    obtain ⟨a, b, heq⟩ := raise_eq line s.pics
    rw [heq] at hp ⊢
    exact ⟨hp, h.range, h.service, h.order⟩
  | take htakes => exact h.take htakes
  | finish hhandlers => exact ⟨hp, h.range, h.service, h.order⟩
  | setIRQEnabled hset =>
    obtain ⟨-, ⟨m, n, rfl⟩, -⟩ := h.configured.setIRQEnabled hset
    exact ⟨hp, h.range, h.service, h.order⟩

/-- The length of a sorted list of vectors of the second controller. -/
theorem length_le_eight {vectors : List ℕ} (horder : vectors.Pairwise (· < ·))
    (hrange : ∀ v ∈ vectors, 0x28 ≤ v ∧ v < 0x30) : vectors.length ≤ 8 := by
  have hnodup : vectors.Nodup := horder.imp fun hlt => hlt.ne
  have hsubset : vectors ⊆ List.range' 0x28 8 := by
    intro v hv
    rw [List.mem_range'_1]
    exact hrange v hv
  exact (hnodup.subperm hsubset).length_le.trans (by simp)

/-- What SetIRQEnabled says about a line. -/
def settingAfter (line : ℕ) (enabled : Bool) : Event → Bool
  | .setIRQEnabled irq value => if irq = line then value else enabled
  | _ => enabled

/-- Whether a line is enabled after some events, by the last call of SetIRQEnabled for it. -/
def lastSetting (line : ℕ) (enabled : Bool) (events : List Event) : Bool :=
  events.foldl (settingAfter line) enabled

theorem maskBit_step {line : ℕ} (hp : Configured s.pics) (hstep : Steps s e s')
    (hline : line ≤ 15) :
    (!maskBit line s'.pics) = settingAfter line (!maskBit line s.pics) e := by
  cases hstep with
  | @raise irq =>
    obtain ⟨a, b, heq⟩ := raise_eq irq s.pics
    rw [heq]
    rfl
  | take htakes => cases htakes <;> rfl
  | finish =>
    have hmask : (s.pics.master.command 0x20).mask = s.pics.master.mask := by
      change s.pics.master.endOfInterrupt.mask = _
      unfold Pic.endOfInterrupt
      split <;> rfl
    unfold maskBit outPort
    dsimp only
    rw [hmask]
    rfl
  | @setIRQEnabled irq enabled pics hset =>
    obtain ⟨-, -, hmask⟩ := hp.setIRQEnabled hset
    dsimp only [settingAfter]
    rw [hmask line hline]
    by_cases h : line = irq
    · rw [if_pos h, if_pos h.symm, Bool.not_not]
    · rw [if_neg h, if_neg (Ne.symm h)]

/-- Only lines that are not masked are taken, and those of the second controller only if
line 2 of the first one is not masked. -/
theorem Takes.unmasked {p p' : Pics} (h : Takes p v p') :
    maskBit (v - 0x20) p = false ∧ (0x28 ≤ v → maskBit 2 p = false) := by
  cases h with
  | @master i hline hpending =>
    obtain ⟨hlt, -, hmask, -⟩ := Pic.of_pending hpending
    refine ⟨?_, fun hle => by omega⟩
    unfold maskBit
    rw [if_neg (by omega), Nat.add_sub_cancel_left]
    exact hmask
  | @slave j hline hpending =>
    refine ⟨?_, fun _ => (Pic.of_pending hline).2.2.1⟩
    have hindex : 0x28 + j - 0x20 - 8 = j := by omega
    unfold maskBit
    rw [if_pos (by omega), hindex]
    exact (Pic.of_pending hpending).2.2.1

/-- Every interrupt of a run was enabled when it was taken. -/
theorem taken_cases {events : List Event} (hp : Configured s.pics)
    (hrun : RequestRuns.run step events s = .ok s') (hv : v ∈ s'.taken) :
    v ∈ s.taken ∨ ∃ before after, events = before ++ .take :: after ∧ v < 0x30 ∧
      lastSetting (v - 0x20) (!maskBit (v - 0x20) s.pics) before = true ∧
      (0x28 ≤ v → lastSetting 2 (!maskBit 2 s.pics) before = true) := by
  induction events generalizing s with
  | nil =>
    cases hrun
    exact Or.inl hv
  | cons e events ih =>
    obtain ⟨next, hnext, hrest⟩ := RequestRuns.run_cons_eq_ok.mp hrun
    have hstep := steps_of_step hp hnext
    have hmask (line : ℕ) (hline : line ≤ 15) (before : List Event) :
        lastSetting line (!maskBit line next.pics) before =
          lastSetting line (!maskBit line s.pics) (e :: before) := by
      unfold lastSetting
      rw [List.foldl_cons, maskBit_step hp hstep hline]
    rcases ih (hp.step hstep) hrest with hold | ⟨before, after, rfl, hlt, hline, htwo⟩
    · cases hstep with
      | take htakes =>
        rcases List.mem_cons.mp hold with rfl | hold
        · obtain ⟨hmasked, hcascade⟩ := htakes.unmasked
          refine Or.inr ⟨[], events, rfl, htakes.range.2, ?_, fun hle => ?_⟩
          · rw [hmasked]
            rfl
          · rw [hcascade hle]
            rfl
        · exact Or.inl hold
      | raise => exact Or.inl hold
      | finish => exact Or.inl hold
      | setIRQEnabled => exact Or.inl hold
    · refine Or.inr ⟨e :: before, after, rfl, hlt, ?_, fun hle => ?_⟩
      · rw [← hmask _ (by omega)]
        exact hline
      · rw [← hmask 2 (by decide)]
        exact htwo hle

end Runs

section Results
variable {p : Pics} {events : List Event} {s : System}

/-- In every state of every run, the lines in service in the first controller are exactly
those of the handlers that have not returned, however they are nested, and the command at
the end of a handler takes its own line out of service and no other one. -/
theorem handlers_in_service (hservice : p.master.service = 0)
    (hrun : RequestRuns.run step events ⟨remapPIC p, [], []⟩ = .ok s) :
    (∀ j < 8, s.pics.master.service.getLsbD j = true ↔ j ∈ s.handlers.map lineOf) ∧
      (s.handlers.map lineOf).Pairwise (· < ·) ∧
      ∀ v handlers, s.handlers = v :: handlers → outPort .pic1Command 0x20 s.pics =
        { s.pics with
          master := { s.pics.master with
            service := s.pics.master.service &&& ~~~(1#8 <<< lineOf v) } } := by
  have hstart : Nested ⟨remapPIC p, [], []⟩ := by
    refine ⟨configured_remapPIC p, fun j _ => ?_, List.Pairwise.nil, fun j hj => ?_⟩
    · rw [(service_remapPIC p).1, hservice]
      simp
    · cases hj
  have h : Nested s := RequestRuns.run_inv
    (fun e t t' ht hstep => ht.step (steps_of_step ht.configured hstep)) hstart hrun
  exact ⟨h.service, h.order, fun v handlers hhandlers => h.finish_eq hhandlers⟩

/-- In every run, every interrupt of the second controller has a higher priority than all of
its interrupts before, so that there are eight of them at most. -/
theorem slave_lines_spent (hrun : RequestRuns.run step events ⟨remapPIC p, [], []⟩ = .ok s) :
    (∀ v ∈ s.taken, 0x20 ≤ v ∧ v < 0x30) ∧
      (s.taken.filter fun v => 0x28 ≤ v).Pairwise (· < ·) ∧
      (s.taken.filter fun v => 0x28 ≤ v).length ≤ 8 := by
  have hstart : Spent ⟨remapPIC p, [], []⟩ := by
    refine ⟨configured_remapPIC p, fun v hv => ?_, fun v hv => ?_, List.Pairwise.nil⟩ <;> cases hv
  have h : Spent s := RequestRuns.run_inv
    (fun e t t' ht hstep => ht.step (steps_of_step ht.configured hstep)) hstart hrun
  refine ⟨h.range, h.order, length_le_eight h.order fun v hv => ?_⟩
  obtain ⟨hmem, hle⟩ := List.mem_filter.mp hv
  exact ⟨of_decide_eq_true hle, (h.range v hmem).2⟩

end Results

section Witnesses

def idlePic : Pic := ⟨0, 0, 0, 0, 0, 0, []⟩

/-- The keyboard interrupts the handler of the mouse. -/
def mouseEvents : List Event := [.raise 12, .take, .raise 1, .take]

/-- The controllers with masks, and with the two lines in service. -/
def mousePics (masterMask slaveMask : Lines) : Pics :=
  { master := ⟨0, 6, masterMask, 0x20, 4, 1, []⟩
    slave := ⟨0, 0x10, slaveMask, 0x28, 2, 1, []⟩ }

theorem mouse_run : RequestRuns.run step mouseEvents ⟨remapPIC ⟨idlePic, idlePic⟩, [], []⟩ =
    .ok ⟨mousePics 0 0, [33, 44], [33, 44]⟩ := rfl

theorem handlers_in_service_mouse :
    ((mousePics 0 0).master.service.getLsbD 1 = true ↔ 1 ∈ [33, 44].map lineOf) ∧
      ([33, 44].map lineOf).Pairwise (· < ·) := by
  obtain ⟨hservice, horder, -⟩ := handlers_in_service rfl mouse_run
  exact ⟨hservice 1 (by decide), horder⟩

theorem slave_lines_spent_mouse : ([33, 44].filter fun v => 0x28 ≤ v).length ≤ 8 :=
  (slave_lines_spent mouse_run).2.2

def enabledEvents : List Event :=
  [.setIRQEnabled 1 true, .setIRQEnabled 2 true, .setIRQEnabled 12 true] ++ mouseEvents

theorem enabled_run : RequestRuns.run step enabledEvents
    ⟨disablePIC (remapPIC ⟨idlePic, idlePic⟩), [], []⟩ =
      .ok ⟨mousePics 0xF9 0xEF, [33, 44], [33, 44]⟩ := rfl

end Witnesses

end Enkel.InterruptController

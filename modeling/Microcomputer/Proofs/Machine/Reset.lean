import Microcomputer.Proofs.Machine.Continuation
import Microcomputer.Proofs.MemoryMap.Pristine
import Microcomputer.Proofs.MemoryMap.Twin
import Microcomputer.Proofs.Processor.Later

/-! A reset restores power-on. Whatever a machine went through, only what was plugged in counts:
a reset brings it into the state of a machine that was newly built and had the same plugged in,
each device reset, but for RAM, for the cycle counter and for the traces of devices. As nothing
depends on counter and traces, the two go on alike from equal RAM: `powersOn_reset`. -/

namespace Microcomputer.Machine

/-! ### Actions -/

/-- What can be done to a machine: its operations, and writing to registers from outside. -/
inductive Action where
  | op (op : Op)
  | setRegister (r : Reg) (x : Word)
  | setPc (x : Word)

def Action.run : Action → Machine → Machine
  | op o, m => o.run m
  | setRegister r x, m => { m with cpu := m.cpu.set r x }
  | setPc x, m => { m with cpu := { m.cpu with pc := x } }

def act (actions : List Action) (m : Machine) : Machine :=
  actions.foldl (fun m a => a.run m) m

/-- No state comes from elsewhere, and the peripherals stay in place. -/
def Action.ordinary : Action → Bool
  | op (.restore _) | op (.processor (.setState _)) => false
  | op (.map o) => o.ordinary
  | _ => true

/-- Actions on slots. -/
def Action.plugs : Action → Bool
  | op (.attach ..) | op (.attachNamed ..) | op (.detach _) => true
  | op (.map o) => o.plugs
  | _ => false

variable {m a b : Machine}

/-- An action on slots is one of the memory map, the same for every machine. -/
theorem Action.exists_run_eq {action : Action} (h : action.plugs) (hordinary : action.ordinary) :
    (∃ o : MemoryMap.Op, o.ordinary ∧ o.plugs ∧ ∀ m, action.run m = m.withMap o.run) ∨
      ∀ m, action.run m = m := by
  cases action with
  | op o =>
    cases o with
    | attach slot d => exact .inl ⟨.attach slot d, rfl, rfl, fun m => run_attach m slot d⟩
    | attachNamed c name slot =>
      cases hd : c.device? name with
      | some d =>
        exact .inl ⟨.attach slot d, rfl, rfl, fun m => by rw [run, run_attachNamed, hd]⟩
      | none => exact .inr fun m => by rw [run, run_attachNamed, hd]
    | detach slot => exact .inl ⟨.detach slot, rfl, rfl, fun m => run_detach m slot⟩
    | map o => exact .inl ⟨o, hordinary, h, fun _ => rfl⟩
    | _ => cases h
  | _ => cases h

/-- Actions on slots are those of the memory map or do nothing, so the others are all that
there is to what actions do. -/
theorem Action.run_cases {P : (Machine → Machine) → Prop} {action : Action} (h : action.ordinary)
    (same : P id) (setRegister : ∀ r x, P (setRegister r x).run) (setPc : ∀ x, P (setPc x).run)
    (step : P Op.step.run) (tick : ∀ n, P (Op.tick n).run) (reset : P Op.reset.run)
    (tone : P Op.tone.run) (processor : ∀ o, (op (.processor o)).ordinary → P (Op.processor o).run)
    (map : ∀ o : MemoryMap.Op, o.ordinary → P (Op.map o).run) : P action.run := by
  cases hplugs : action.plugs with
  | true =>
    rcases exists_run_eq hplugs h with ⟨o, ho, -, hrun⟩ | hrun
    · exact (funext hrun : action.run = (Op.map o).run) ▸ map o ho
    · exact (funext hrun : action.run = id) ▸ same
  | false =>
    cases action with
    | setRegister r x => exact setRegister r x
    | setPc x => exact setPc x
    | op o =>
      cases o with
      | step => exact step
      | tick n => exact tick n
      | reset => exact reset
      | load i bs => exact map (.load i bs) rfl
      | tone => exact tone
      | processor o => exact processor o h
      | map o => exact map o h
      | restore s => cases h
      | attach slot d | attachNamed c name slot | detach slot => cases hplugs

/-! ### Origins -/

/-- A map of one origin with another. -/
def FromOrigin (map map' : MemoryMap) : Prop := map'.Valid ∧ map.SameOrigin map'

theorem FromOrigin.op {map map' : MemoryMap} (h : FromOrigin map map') (o : MemoryMap.Op)
    (hordinary : o.ordinary) (hplugs : o.plugs = false) : FromOrigin map (o.run map') :=
  ⟨h.1.op o, h.2.trans (.of_op h.1 o hordinary hplugs)⟩

theorem kept_fromOrigin (map : MemoryMap) : Kept (FromOrigin map) where
  read h a := h.op (.read a) rfl rfl
  write h a b := h.op (.write a b) rfl rfl
  tick h n elapsed := h.op (.tick n elapsed) rfl rfl
  acknowledge h source := h.op (.acknowledge source) rfl rfl

/-- Only actions on slots change what a reset returns to. -/
theorem fromOrigin_run (hm : m.map.Valid) {action : Action} (h : action.ordinary)
    (hplugs : action.plugs = false) : FromOrigin m.map (action.run m).map := by
  have hkept := kept_fromOrigin m.map
  have hself : FromOrigin m.map m.map := ⟨hm, .refl m.map⟩
  cases action with
  | setRegister r x => exact hself
  | setPc x => exact hself
  | op o =>
    cases o with
    | step => exact hkept.of_step hself
    | tick n => exact hkept.of_tick hself n
    | reset => exact hself.op .reset rfl rfl
    | load i bs => exact hself.op (.load i bs) rfl rfl
    | tone => exact hkept.of_tone hself
    | processor o => exact hkept.of_processor hself o
    | map o => exact hself.op o h hplugs
    | restore s => cases h
    | attach slot d | attachNamed c name slot | detach slot => cases hplugs

theorem sameOrigin_run (h : a.map.SameOrigin b.map) (ha : a.map.Valid) (hb : b.map.Valid)
    {action : Action} (hordinary : action.ordinary) (hplugs : action.plugs) :
    (action.run a).map.SameOrigin (action.run b).map ∧ (action.run a).map.Valid ∧
      (action.run b).map.Valid := by
  rcases Action.exists_run_eq hplugs hordinary with ⟨o, ho, -, hrun⟩ | hrun
  · rw [hrun, hrun]
    exact ⟨h.op ha hb ho, ha.op o, hb.op o⟩
  · rw [hrun, hrun]
    exact ⟨h, ha, hb⟩

/-- A machine comes from the same origin as one that went only through the actions on slots. -/
theorem sameOrigin_act (h : a.map.SameOrigin b.map) (ha : a.map.Valid) (hb : b.map.Valid)
    {actions : List Action} (hactions : ∀ action ∈ actions, action.ordinary) :
    (act actions a).map.SameOrigin (act (actions.filter Action.plugs) b).map ∧
      (act actions a).map.Valid := by
  induction actions generalizing a b with
  | nil => exact ⟨h, ha⟩
  | cons action actions ih =>
    have hordinary := hactions action List.mem_cons_self
    have hrest := fun x hx => hactions x (List.mem_cons_of_mem action hx)
    cases hplugs : action.plugs with
    | false =>
      obtain ⟨hvalid, hsame⟩ := fromOrigin_run ha hordinary hplugs
      rw [List.filter_cons_of_neg (by simp [hplugs])]
      exact ih (hsame.symm.trans h) hvalid hb hrest
    | true =>
      obtain ⟨hsame, hleft, hright⟩ := sameOrigin_run h ha hb hordinary hplugs
      rw [List.filter_cons_of_pos hplugs]
      exact ih hsame hleft hright hrest

/-! ### A counter that is ahead -/

/-- The machine with its cycle counter ahead. -/
def later (δ : DoubleWord) (m : Machine) : Machine := { m with cpu := m.cpu.later δ }

/-- The answer of a machine with its cycle counter ahead. -/
def Answer.later (δ : DoubleWord) : Answer → Answer
  | stepped cost s => stepped cost (s.later δ)
  | ticked s => ticked (s.later δ)
  | saved s => saved { s with processor := s.processor.later δ }
  | answer => answer

section Later

variable (δ : DoubleWord) (m : Machine)

theorem withMap_later (f : MemoryMap → MemoryMap) :
    (m.later δ).withMap f = (m.withMap f).later δ := rfl

theorem route_later : (m.later δ).route = m.route.later δ := by
  have hrequest : (m.later δ).map.request? = m.map.request? := rfl
  have haccepts : (m.later δ).cpu.accepts = m.cpu.accepts := rfl
  unfold route
  rw [hrequest, haccepts]
  split
  · next r _ =>
    split
    · have hoffer := m.cpu.offer_later δ r.message
      exact congrArg (fun cpu => { m with cpu := cpu }.withMap (·.acknowledge r.source)) hoffer
    · rfl
  · rfl

theorem round_later (n : Nat) : (m.later δ).round n = (m.round n).later δ :=
  route_later δ (m.withMap (·.tick n (m.elapsed n)))

theorem step_later : (m.later δ).step = (m.step.1, m.step.2.later δ) := by
  have hcpu : (m.later δ).cpu.step = (m.cpu.step.1, m.cpu.step.2.later δ) := m.cpu.step_later δ
  unfold step
  rw [hcpu]
  exact congrArg (Prod.mk _) (round_later δ { m with cpu := m.cpu.step.2 } _)

theorem cycle_later : (m.later δ).cycle = m.cycle.later δ := by
  have hcpu : (m.later δ).cpu.cycle = m.cpu.cycle.later δ := m.cpu.cycle_later δ
  rw [cycle, hcpu]
  exact round_later δ { m with cpu := m.cpu.cycle } 1

theorem tick_later (n : Nat) : (m.later δ).tick n = (m.tick n).later δ := by
  induction n generalizing m with
  | zero => rfl
  | succ n ih => rw [tick, tick, cycle_later, ih]

theorem processor_later (op : Processor.Op) (h : (Action.op (.processor op)).ordinary) :
    op.run (m.cpu.later δ) = (op.run m.cpu).later δ := by
  cases op with
  | step => exact congrArg Prod.snd (m.cpu.step_later δ)
  | tick n => exact m.cpu.tick_later δ n
  | reset => rfl
  | offer message => exact m.cpu.offer_later δ message
  | setState s => cases h

theorem run_later {action : Action} (h : action.ordinary) :
    ∀ m : Machine, action.run (m.later δ) = (action.run m).later δ := by
  refine Action.run_cases (P := fun f => ∀ m : Machine, f (m.later δ) = (f m).later δ) h
    ?same ?setRegister ?setPc ?step ?tick ?reset ?tone ?processor ?map
  case step => exact fun m => congrArg Prod.snd (step_later δ m)
  case tick => exact fun n m => tick_later δ m n
  case processor =>
    exact fun o ho m => congrArg (fun cpu => { m with cpu := cpu }) (processor_later δ m o ho)
  case same | reset | tone => exact fun _ => rfl
  case setPc | setRegister | map => intros; rfl

theorem act_later {actions : List Action} (h : ∀ action ∈ actions, action.ordinary) :
    act actions (m.later δ) = (act actions m).later δ := by
  induction actions generalizing m with
  | nil => rfl
  | cons action actions ih =>
    have hrun := run_later δ (h action List.mem_cons_self) m
    rw [act, List.foldl_cons, hrun]
    exact ih (action.run m) fun x hx => h x (List.mem_cons_of_mem action hx)

theorem call_later (c : Call) :
    c.run (m.later δ) = ((c.run m).1.later δ, (c.run m).2.later δ) := by
  have hmap : (m.later δ).map = m.map := rfl
  cases c with
  | step =>
    simp only [Call.run, step_later]
    rfl
  | tick n =>
    simp only [Call.run, tick_later]
    rfl
  | readByte a | readHalf a | readWord a =>
    simp only [Call.run, hmap, withMap_later, Answer.later]
  | _ => rfl

theorem answers_later (calls : List Call) :
    answers calls (m.later δ) = (answers calls m).map (Answer.later δ) := by
  induction calls generalizing m with
  | nil => rfl
  | cons c calls ih => rw [answers, answers, call_later, ih, List.map_cons]

end Later

/-! ### Machines that go on alike -/

theorem configuration_route (m : Machine) : m.route.configuration = m.configuration := by
  unfold route
  split
  · split <;> rfl
  · rfl

theorem configuration_tick (m : Machine) (n : Nat) :
    (m.tick n).configuration = m.configuration := by
  induction n generalizing m with
  | zero => rfl
  | succ n ih => exact (ih m.cycle).trans (configuration_route _)

theorem configuration_run {action : Action} (h : action.ordinary) :
    ∀ m, (action.run m).configuration = m.configuration := by
  refine Action.run_cases (P := fun f => ∀ m, (f m).configuration = m.configuration) h
    ?same ?setRegister ?setPc ?step ?tick ?reset ?tone ?processor ?map
  case step => exact fun m => configuration_route _
  case tick => exact fun n m => configuration_tick m n
  all_goals intros; rfl

theorem configuration_act {actions : List Action} (h : ∀ action ∈ actions, action.ordinary)
    (m : Machine) : (act actions m).configuration = m.configuration := by
  induction actions generalizing m with
  | nil => rfl
  | cons action actions ih =>
    have hrest := ih (fun x hx => h x (List.mem_cons_of_mem action hx)) (action.run m)
    exact hrest.trans (configuration_run (h action List.mem_cons_self) m)

/-- Machines that are equal but for the traces of devices. -/
structure Twin (a b : Machine) : Prop where
  configuration_eq : a.configuration = b.configuration
  cpu : Processor.Related MemoryMap.Twin a.cpu b.cpu

namespace Twin

theorem alike (h : a.Twin b) : a.Alike b :=
  ⟨congrArg Configuration.clock h.configuration_eq, h.cpu.state_eq, h.cpu.memory.alike⟩

theorem withMap (h : a.Twin b) {o : MemoryMap.Op} (ho : o.ordinary) :
    (a.withMap o.run).Twin (b.withMap o.run) :=
  ⟨h.configuration_eq, h.cpu.state_eq, h.cpu.memory.op ho⟩

theorem processor (h : a.Twin b) {o : Processor.Op} (ho : (Action.op (.processor o)).ordinary) :
    Processor.Related MemoryMap.Twin (o.run a.cpu) (o.run b.cpu) := by
  cases o with
  | step => exact (h.cpu.step MemoryMap.Twin.simulation).2
  | tick n => exact h.cpu.tick MemoryMap.Twin.simulation n
  | reset => exact h.cpu.reset
  | offer message => exact h.cpu.offer message
  | setState s => cases ho

/-- What leaves the slots alone keeps machines alike, and each of them with its origin. -/
theorem of_alike (h : a.Twin b) (action : Action) (hordinary : action.ordinary)
    (hplugs : action.plugs = false) (halike : (action.run a).Alike (action.run b)) :
    (action.run a).Twin (action.run b) := by
  have hconfiguration := configuration_run hordinary
  have hleft := fromOrigin_run h.alike.map.left hordinary hplugs
  have hright := fromOrigin_run h.alike.map.right hordinary hplugs
  refine ⟨?_, halike.cpu.state_eq, halike.map, ?_⟩
  · rw [hconfiguration, hconfiguration, h.configuration_eq]
  · exact (hleft.2.symm.trans h.cpu.memory.sameOrigin).trans hright.2

theorem run {action : Action} (hordinary : action.ordinary) :
    ∀ {a b : Machine}, a.Twin b → (action.run a).Twin (action.run b) := by
  refine Action.run_cases (P := fun f => ∀ {a b : Machine}, a.Twin b → (f a).Twin (f b)) hordinary
    ?same ?setRegister ?setPc ?step ?tick ?reset ?tone ?processor ?map
  case same => exact id
  case setRegister =>
    intro r x a b h
    have hstate := congrArg (fun s => { s with registers := s.registers.set r x }) h.cpu.state_eq
    exact ⟨h.configuration_eq, hstate, h.cpu.memory⟩
  case setPc =>
    intro x a b h
    have hstate := congrArg (fun s : Processor.State => { s with pc := x }) h.cpu.state_eq
    exact ⟨h.configuration_eq, hstate, h.cpu.memory⟩
  case step => exact fun h => h.of_alike (.op .step) rfl rfl h.alike.step.2
  case tick => exact fun n _ _ h => h.of_alike (.op (.tick n)) rfl rfl (h.alike.tick n)
  case reset => exact fun h => h.of_alike (.op .reset) rfl rfl h.alike.reset
  case tone =>
    intro a b h
    have hread := h.alike.call (.readHalf (BitVec.ofNat 32 toneBase))
    exact h.of_alike (.op .tone) rfl rfl hread.2
  case processor => exact fun o ho _ _ h => ⟨h.configuration_eq, h.processor ho⟩
  case map => exact fun o ho _ _ h => h.withMap ho

theorem act (h : a.Twin b) {actions : List Action}
    (hactions : ∀ action ∈ actions, action.ordinary) :
    (act actions a).Twin (act actions b) := by
  induction actions generalizing a b with
  | nil => exact h
  | cons action actions ih =>
    exact ih (run (hactions action List.mem_cons_self) h)
      fun x hx => hactions x (List.mem_cons_of_mem action hx)

end Twin

/-- Machines that are equal but for the traces of devices, and for the cycle counter, in which
the second is ahead. -/
structure Resembles (δ : DoubleWord) (a b : Machine) : Prop where
  configuration_eq : b.configuration = a.configuration
  state_eq : b.cpu.toState = a.cpu.toState.later δ
  map_eq : b.map.traceless = a.map.traceless

/-- Machines that are equal so now and after any actions, and then answer equally. -/
def Continues (δ : DoubleWord) (a b : Machine) : Prop :=
  ∀ actions : List Action, (∀ action ∈ actions, action.ordinary) →
    Resembles δ (act actions a) (act actions b) ∧
      ∀ calls, answers calls (act actions b) = (answers calls (act actions a)).map (.later δ)

theorem Resembles.continues {δ : DoubleWord} (h : Resembles δ a b) (hb : b.map.Valid) :
    Continues δ a b := by
  intro actions hactions
  have htwin : b.Twin (a.later δ) :=
    ⟨h.configuration_eq, h.state_eq, .of_traceless_eq hb h.map_eq⟩
  have hact := htwin.act hactions
  rw [act_later δ a hactions] at hact
  refine ⟨⟨hact.configuration_eq, hact.cpu.state_eq, hact.cpu.memory.traceless_eq⟩, ?_⟩
  intro calls
  rw [hact.alike.answers_eq, answers_later]

/-! ### Power-on -/

/-- Of a configuration with a fixed seed there is one machine. -/
theorem build_eq_of_seed {c : Configuration} (h : c.seed.isSome) (entropy entropy' : DoubleWord) :
    build c entropy = build c entropy' := by
  obtain ⟨seed, hseed⟩ := Option.isSome_iff_exists.mp h
  simp only [build, hseed, Option.getD_some]

/-- What is built in is new. -/
theorem new_of_mem_builtIn {epoch seed : DoubleWord} {q : Nat × Nat × Peripheral}
    (h : q ∈ builtIn epoch seed) : q.2.2.New := by
  simp only [builtIn, List.mem_cons, List.not_mem_nil, or_false] at h
  rcases h with rfl | rfl | rfl | rfl
  · exact .timer
  · exact .tone
  · exact .clock epoch
  · exact .random seed

theorem new_of_build {c : Configuration} {entropy : DoubleWord} (h : build c entropy = .ok m) :
    m.map.New := by
  obtain ⟨map, hmap, rfl⟩ := build_eq_ok h
  refine of_foldlM_mapBuiltIn (fun q hq {map i id map'} hm hr => ?_)
    (MemoryMap.new_new c.ram ⟨c.rom⟩) hmap
  obtain ⟨-, -, rfl⟩ := MemoryMap.register_eq_ok hr
  exact hm.withRegion i (new_of_mem_builtIn hq)

theorem toState_of_build {c : Configuration} {entropy : DoubleWord} (h : build c entropy = .ok m) :
    m.cpu.toState = .initial := by
  obtain ⟨map, -, rfl⟩ := build_eq_ok h
  rfl

/-- A reset of a machine that was not yet run is one of its memory map. -/
theorem reset_eq_withMap (h : m.cpu.toState = .initial) : m.reset = m.withMap MemoryMap.reset := by
  have hnew : m.cpu = .new m.cpu.memory := congrArg (fun s => Processor.mk s m.cpu.memory) h
  have hcpu : m.cpu.reset = m.cpu := by rw [hnew, Processor.reset_new]
  rw [reset, hcpu]

/-- A reset gives a newly built machine back. -/
theorem reset_of_build {c : Configuration} {entropy : DoubleWord} (h : build c entropy = .ok m) :
    m.reset = m := by
  have hmap : m.cpu.memory.reset = m.cpu.memory := (new_of_build h).reset_eq
  rw [reset_eq_withMap (toState_of_build h), withMap, hmap]

/-- Actions on slots leave the processor alone, and nothing happens to what is mapped. -/
theorem act_plugs {actions : List Action}
    (h : ∀ action ∈ actions, action.ordinary ∧ action.plugs) (hm : m.map.Pristine) :
    (act actions m).cpu.toState = m.cpu.toState ∧ (act actions m).map.Pristine := by
  induction actions generalizing m with
  | nil => exact ⟨rfl, hm⟩
  | cons action actions ih =>
    obtain ⟨hordinary, hplugs⟩ := h action List.mem_cons_self
    have hrest := fun x hx => h x (List.mem_cons_of_mem action hx)
    rcases Action.exists_run_eq hplugs hordinary with ⟨o, -, ho, hrun⟩ | hrun
    · obtain ⟨hstate, hpristine⟩ := ih hrest (m := m.withMap o.run) (hm.op ho)
      rw [act, List.foldl_cons, hrun]
      exact ⟨hstate, hpristine⟩
    · rw [act, List.foldl_cons, hrun]
      exact ih hrest hm

/-- A reset brings a machine to where one of its origin comes that was not yet run. -/
theorem resembles_reset (hconfiguration : a.configuration = b.configuration)
    (hstate : b.cpu.toState = .initial) (hsame : a.map.SameOrigin b.map) :
    Resembles a.cpu.cycles (b.reset.load 0 a.map.ram.bytes.toList) a.reset where
  configuration_eq := hconfiguration
  state_eq := by
    change a.cpu.toState.reset = b.cpu.toState.reset.later a.cpu.cycles
    rw [hstate, a.cpu.toState.reset_eq]
    rfl
  map_eq := by
    have hram : b.reset.map.ram.load 0 a.map.ram.bytes.toList = a.map.ram :=
      Ram.load_bytes hsame.size_eq.symm
    have hload : (b.reset.load 0 a.map.ram.bytes.toList).map.traceless =
        { b.reset.map.traceless with ram := b.reset.map.ram.load 0 a.map.ram.bytes.toList } := rfl
    rw [hload, hram]
    exact hsame.traceless_reset

theorem resembles_reset_reset (hm : m.map.Valid) : Resembles 0 m.reset m.reset.reset where
  configuration_eq := rfl
  state_eq := (m.reset.cpu.toState.later_zero).symm
  map_eq := (MemoryMap.SameOrigin.of_op hm .reset rfl rfl).symm.traceless_reset

/-- Let a machine with a fixed seed go through anything, a state from elsewhere and other
peripherals apart. A reset leaves every region in its place and restores power-on: the machine
is one that was newly built, had the same plugged in, the devices reset, and was then given that
RAM, but for cycle counter and traces, and stays so. Of the newly built machine itself a reset
changes nothing, with what was plugged in it resets the devices alone, and a second reset
changes nothing but traces. -/
theorem powersOn_reset {c : Configuration} {entropy entropy' : DoubleWord} {built fresh : Machine}
    (hseed : c.seed.isSome) (hbuilt : build c entropy = .ok built)
    (hfresh : build c entropy' = .ok fresh) {actions : List Action}
    (hactions : ∀ action ∈ actions, action.ordinary) :
    let m := act actions built
    let plugged := act (actions.filter Action.plugs) fresh
    let start := plugged.withMap (MemoryMap.run MemoryMap.deviceResets)
    fresh.reset = fresh ∧ plugged.reset = start ∧
      m.reset.map.layout = m.map.layout ∧
      Continues m.cpu.cycles (start.load 0 m.map.ram.bytes.toList) m.reset ∧
      Continues 0 m.reset m.reset.reset := by
  intro m plugged start
  obtain rfl : fresh = built := by
    rw [build_eq_of_seed hseed entropy' entropy, hbuilt] at hfresh
    exact (Except.ok.inj hfresh).symm
  have hvalid : fresh.map.Valid := (reachable_of_build hfresh).valid
  obtain ⟨hsame, hm⟩ := sameOrigin_act (.refl fresh.map) hvalid hvalid hactions
  have hplugs : ∀ action ∈ actions.filter Action.plugs, action.ordinary ∧ action.plugs :=
    fun x hx => ⟨hactions x (List.mem_filter.mp hx).1, (List.mem_filter.mp hx).2⟩
  have hordinary : ∀ action ∈ actions.filter Action.plugs, action.ordinary :=
    fun x hx => (hplugs x hx).1
  have hconfiguration : m.configuration = plugged.configuration := by
    rw [configuration_act hactions, configuration_act hordinary]
  obtain ⟨hcpu, hpristine⟩ := act_plugs hplugs (new_of_build hfresh).pristine
  have hstate : plugged.cpu.toState = .initial := hcpu.trans (toState_of_build hfresh)
  have hplugged : plugged.map.Valid := (sameOrigin_act (.refl fresh.map) hvalid hvalid hordinary).2
  have hmap : MemoryMap.run MemoryMap.deviceResets plugged.cpu.memory = plugged.cpu.memory.reset :=
    hpristine.run_deviceResets hplugged
  have hstart : plugged.reset = start := by
    rw [reset_eq_withMap hstate, withMap, ← hmap]
    rfl
  refine ⟨reset_of_build hfresh, hstart, m.map.layout_reset, ?_, ?_⟩
  · rw [← hstart]
    exact (resembles_reset hconfiguration hstate hsame).continues (hm.op .reset)
  · exact (resembles_reset_reset hm).continues ((hm.op .reset).op .reset)

/-- A device is plugged in and given a value, timer and clock are written, the random source
gives a byte and is seeded anew, and everything is interrupted and reset in between. -/
def disturbances : List Action :=
  [.op (.attach 3 (.exerciser (.new ⟨1, 2, 3, 4⟩ true 5))), .op (.tick 2),
    .op (.map (.write 0x11E000 9)), .op (.map (.write 0x11E010 3)), .setRegister 4 7,
    .op (.processor (.offer 6)), .op .reset, .op (.load 3 [8]), .op (.map (.write 0x11E030 5)),
    .op (.map (.read 0x11E040)), .op (.map (.write 0x11E040 1)), .op (.map (.write 0x11E041 2)),
    .op (.map (.write 0x11E042 3)), .op (.map (.write 0x11E043 4)), .op .step,
    .op (.map (.write 0x11030A 8)), .op (.map (.write 0x11E001 9)), .setPc 12, .op .tone]

/-- What these leave behind is gone after one more reset. -/
theorem powersOn_reset_disturbances :
    let c : Configuration := ⟨64, #[], 1, some 5, 7⟩
    let built := (build c 1).toOption.get (by decide)
    let fresh := (build c 2).toOption.get (by decide)
    let m := act disturbances built
    let plugged := act [.op (.attach 3 (.exerciser (.new ⟨1, 2, 3, 4⟩ true 5)))] fresh
    let start := plugged.withMap (MemoryMap.run MemoryMap.deviceResets)
    m.cpu.cycles = 5 ∧ m.map.traceless ≠ m.reset.map.traceless ∧
      fresh.reset = fresh ∧ plugged.reset = start ∧
      m.reset.map.layout = m.map.layout ∧
      Continues 5 (start.load 0 m.map.ram.bytes.toList) m.reset ∧
      Continues 0 m.reset m.reset.reset := by
  intro c built fresh
  have hcycles : (act disturbances built).cpu.cycles = 5 := by decide +kernel
  have hplugs : disturbances.filter Action.plugs =
      [.op (.attach 3 (.exerciser (.new ⟨1, 2, 3, 4⟩ true 5)))] := rfl
  have hbuilt : build c 1 = .ok built := rfl
  have hfresh : build c 2 = .ok fresh := rfl
  obtain ⟨hself, hplugged, hlayout, hcontinues, hagain⟩ :=
    powersOn_reset (by decide) hbuilt hfresh (show ∀ a ∈ disturbances, a.ordinary by decide)
  rw [hplugs, hcycles] at hcontinues
  rw [hplugs] at hplugged
  exact ⟨hcycles, by decide +kernel, hself, hplugged, hlayout, hcontinues, hagain⟩

end Microcomputer.Machine

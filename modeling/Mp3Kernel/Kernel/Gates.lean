import Mp3Kernel.Lib.Interrupts
import Mp3Kernel.Kernel.InterruptEntry

/-!
The interrupt descriptor table that `entry` of kernel.c constructs with the
macros of x86_desc.h, and what the processor does through it: every vector has
a stub, and user code gets in by `int` at one of them only.
-/
namespace Mp3Kernel.Gates
open Mp3Kernel.Memory (Word Half)
open Mp3Kernel.Interrupts Mp3Kernel.Tasks
open Mp3Kernel.InterruptEntry (Exception)

/-- `idt_desc_t`, the first field in the low bits. -/
structure IdtDesc where
  offset_15_00 : BitVec 16
  seg_selector : BitVec 16
  reserved4 : BitVec 8
  reserved3 : BitVec 1
  reserved2 : BitVec 1
  reserved1 : BitVec 1
  size : BitVec 1
  reserved0 : BitVec 1
  dpl : BitVec 2
  present : BitVec 1
  offset_31_16 : BitVec 16
  deriving Inhabited

def IdtDesc.val (d : IdtDesc) : BitVec 64 :=
  d.offset_31_16 ++ d.present ++ d.dpl ++ d.reserved0 ++ (d.size ++ d.reserved1 ++ d.reserved2 ++ d.reserved3) ++
    d.reserved4 ++ d.seg_selector ++ d.offset_15_00

/-- The macros for gates differ in one bit and the privilege level. -/
def set_gate (reserved3 : BitVec 1) (dpl : BitVec 2) (str : IdtDesc) (handler : Word) : IdtDesc :=
  { str with
    offset_31_16 := ((handler &&& 0xFFFF0000) >>> 16).setWidth 16
    offset_15_00 := (handler &&& 0xFFFF).setWidth 16
    size := 1
    reserved0 := 0
    reserved1 := 1
    reserved2 := 1
    reserved3 := reserved3
    present := 1
    dpl := dpl
    seg_selector := 0x0010 }

def SET_INTR_GATE (str : IdtDesc) (handler : Word) : IdtDesc := set_gate 0 0 str handler
def SET_SYSTEM_GATE (str : IdtDesc) (handler : Word) : IdtDesc := set_gate 1 3 str handler

/-- The assembly entries. -/
inductive Stub
  | idt_unknown_intr
  | idt_intel (x : Exception)
  | system_call
  | idt_pit
  | idt_keyboard
  | idt_rtc
  deriving DecidableEq

def intel : List (Nat × Exception) :=
  [(0,.de),(1,.db),(2,.nmi),(3,.bp),(4,.of),(5,.br),(6,.ud),(7,.nm),(8,.df),(9,.cso),(10,.ts),(11,.np),(12,.ss),(13,.gp),
    (14,.pf),(16,.mf),(17,.ac),(18,.mc),(19,.xf)]

section
variable (address : Stub → Word)

def set_intr (idt : Nat → IdtDesc) (i : Nat) (stub : Stub) : Nat → IdtDesc :=
  Function.update idt i (SET_INTR_GATE (idt i) (address stub))

/-- "Construct entries in the IDT" of `entry`. -/
def construct_idt (idt : Nat → IdtDesc) : Nat → IdtDesc :=
  let idt := (List.range 256).foldl (fun idt i => set_intr address idt i .idt_unknown_intr) idt
  let idt := intel.foldl (fun idt (i,x) => set_intr address idt i (.idt_intel x)) idt
  let idt := Function.update idt 0x80 (SET_SYSTEM_GATE (idt 0x80) (address .system_call))
  let idt := set_intr address idt 32 .idt_pit
  let idt := set_intr address idt 33 .idt_keyboard
  set_intr address idt 40 .idt_rtc

end

/-- The stub that a vector is meant for. -/
def stub (v : Nat) : Stub :=
  match v with
  | 32 => .idt_pit
  | 33 => .idt_keyboard
  | 40 => .idt_rtc
  | 0x80 => .system_call
  | v => ((intel.lookup v).map .idt_intel).getD .idt_unknown_intr

variable {address : Stub → Word} {idt : Nat → IdtDesc} {d : IdtDesc} {v : Nat}

/-! ### One gate -/

/-- The two halves of a handler's address make it up. -/
theorem halves (handler : Word) :
    ((handler &&& 0xFFFF0000) >>> 16).setWidth 16 ++ (handler &&& 0xFFFF).setWidth 16 = handler := by
  have high : ∀ i < 32, (0xFFFF0000 : Word).getLsbD i = decide (16 ≤ i) := by decide
  have low : ∀ i < 32, (0xFFFF : Word).getLsbD i = decide (i < 16) := by decide
  refine BitVec.eq_of_getLsbD_eq ?_
  intro i inside
  rw [BitVec.getLsbD_append]
  by_cases first : i < 16
  · simp only [first,↓reduceIte,BitVec.getLsbD_setWidth,BitVec.getLsbD_and,low i (by omega)]
    simp
  · simp only [first,↓reduceIte,BitVec.getLsbD_setWidth,BitVec.getLsbD_and,BitVec.getLsbD_ushiftRight,
      high (16 + (i - 16)) (by omega)]
    simp [show 16 + (i - 16) = i by omega,show i - 16 < 16 by omega,show 16 ≤ i by omega]

/-- The processor reads back what a macro has set. -/
theorem gate_set (reserved3 : BitVec 1) (dpl : BitVec 2) (handler : Word) :
    gate (set_gate reserved3 dpl d handler).val =
      { offset := handler, selector := KERNEL_CS, type := 7#3 ++ reserved3, system := 0, dpl := dpl, present := 1 } := by
  simp (disch := decide) only [gate,IdtDesc.val,set_gate,BitVec.extractLsb'_append_eq_of_add_le,
    BitVec.extractLsb'_append_eq_of_le]
  have type : (7#3 ++ reserved3).extractLsb' 0 4 = 7#3 ++ reserved3 := BitVec.extractLsb'_eq_self
  refine Gate.mk.injEq .. ▸ ⟨?_,rfl,type,rfl,BitVec.extractLsb'_eq_self,rfl⟩
  exact (congrArg₂ (· ++ ·) BitVec.extractLsb'_eq_self BitVec.extractLsb'_eq_self).trans (halves handler)

/-- What a gate lets through. -/
theorem deliver_set {table : Nat → IdtDesc} {reserved3 : BitVec 1} {dpl : BitVec 2} {handler : Word} (source : Source)
    (set : table v = set_gate reserved3 dpl d handler) : deliver (fun i => (table i).val) v source =
      match source with
      | .hardware => .enters KERNEL_CS handler (reserved3 = 0)
      | .software cpl =>
        if cpl ≤ dpl then .enters KERNEL_CS handler (reserved3 = 0) else .general_protection (v * 8 + 2) := by
  have type : ∀ bit : BitVec 1, (7#3 ++ bit = 14#4 ↔ bit = 0) ∧ (bit ≠ 0 → 7#3 ++ bit = 15#4) := by decide
  obtain ⟨interrupt,trap⟩ := type reserved3
  simp only [deliver,set,gate_set,ne_eq,not_true_eq_false,false_or]
  cases source with
  | hardware => simpa [interrupt,Gate.allows] using trap
  | software cpl =>
    by_cases low : cpl ≤ dpl
    · simpa [interrupt,Gate.allows,low] using trap
    · simp [Gate.allows,low,code]

/-! ### The table -/

theorem set_intr_same (idt : Nat → IdtDesc) (i : Nat) (s : Stub) :
    set_intr address idt i s i = SET_INTR_GATE (idt i) (address s) := Function.update_self ..

theorem set_intr_other (idt : Nat → IdtDesc) {i j : Nat} (s : Stub) (other : j ≠ i) :
    set_intr address idt i s j = idt j := Function.update_of_ne other ..

/-- An interrupt gate for the stub, whatever else the descriptor holds. -/
def Intr (address : Stub → Word) (d : IdtDesc) (s : Stub) : Prop := ∃ before, d = SET_INTR_GATE before (address s)

/-- Gates that are set one after the other, none of them at odds with the
    others. -/
theorem foldl_intr {E : Type} {index : E → Nat} {target : E → Stub} {es : List E} {idt : Nat → IdtDesc} {s : Stub}
    (before : (∀ e ∈ es, index e ≠ v) → Intr address (idt v) s) (listed : ∀ e ∈ es, index e = v → target e = s) :
    Intr address (es.foldl (fun idt e => set_intr address idt (index e) (target e)) idt v) s := by
  induction es generalizing idt with
  | nil => exact before (fun e inside => by cases inside)
  | cons first es ih =>
    refine ih ?_ (fun e inside => listed e (List.mem_cons_of_mem _ inside))
    intro rest
    dsimp only
    by_cases here : index first = v
    · rw [← listed first List.mem_cons_self here,← here,set_intr_same]
      exact ⟨_,rfl⟩
    · rw [set_intr_other idt _ (Ne.symm here)]
      refine before ?_
      intro e inside
      rcases List.mem_cons.mp inside with rfl | later
      · exact here
      · exact rest e later

theorem intel_stub : ∀ e ∈ intel, stub e.1 = .idt_intel e.2 := by decide

/-- A vector that is not in the list of the exceptions. -/
theorem lookup_absent (absent : ∀ e ∈ intel, e.1 ≠ v) : intel.lookup v = none := by
  refine List.lookup_eq_none_iff.mpr ?_
  intro e inside
  simpa using (absent e inside).symm

variable (address idt) in
/-- Every vector but that of the system calls has an interrupt gate, -/
theorem construct_intr (inside : v < 256) (other : v ≠ 0x80) : Intr address (construct_idt address idt v) (stub v) := by
  have hardware {idt : Nat → IdtDesc} {i : Nat} {s : Stub} (here : v = i → stub v = s)
      (elsewhere : v ≠ i → Intr address (idt v) (stub v)) : Intr address (set_intr address idt i s v) (stub v) := by
    by_cases same : v = i
    · rw [here same,same,set_intr_same]
      exact ⟨_,rfl⟩
    · rw [set_intr_other _ _ same]
      exact elsewhere same
  refine hardware (fun rtc => by rw [rtc]; rfl) fun rtc => ?_
  refine hardware (fun keyboard => by rw [keyboard]; rfl) fun keyboard => ?_
  refine hardware (fun pit => by rw [pit]; rfl) fun pit => ?_
  rw [Function.update_of_ne other]
  refine foldl_intr (fun absent => ?_) (fun e listed same => by rw [← same,intel_stub e listed])
  have unknown : stub v = .idt_unknown_intr := by
    rw [stub,lookup_absent absent]
    · rfl
    all_goals assumption
  rw [unknown]
  exact foldl_intr (fun absent : ∀ e ∈ List.range 256, id e ≠ v => absurd rfl (absent v (List.mem_range.mpr inside)))
    (fun _ _ _ => rfl)

variable (address idt) in
/-- which has the system gate. -/
theorem construct_system : ∃ before, construct_idt address idt 0x80 = SET_SYSTEM_GATE before (address .system_call) := by
  have later {idt : Nat → IdtDesc} {i : Nat} {s : Stub} (other : 0x80 ≠ i) : set_intr address idt i s 0x80 = idt 0x80 :=
    set_intr_other idt s other
  exact ⟨_,(later (by decide)).trans ((later (by decide)).trans ((later (by decide)).trans (Function.update_self ..)))⟩

/-- A device or a fault gets to the stub of its vector. -/
theorem enters_stub (address : Stub → Word) (idt : Nat → IdtDesc) (inside : v < 256) (other : v ≠ 0x80) :
    deliver (fun i => (construct_idt address idt i).val) v .hardware = .enters KERNEL_CS (address (stub v)) true := by
  obtain ⟨before,set⟩ := construct_intr address idt inside other
  exact deliver_set .hardware set

/-- Through the constructed table every interrupt of a device and every fault
    enters the kernel at the stub of its vector, with further interrupts held
    off; by `int` user code gets to the system calls, with interrupts on, and
    any other vector is a general protection fault. -/
theorem vectors_delivered (address : Stub → Word) (idt : Nat → IdtDesc) (source : Source) (inside : v < 256) :
    deliver (fun i => (construct_idt address idt i).val) v source =
      if v = 0x80 then .enters KERNEL_CS (address .system_call) false
      else if source = .hardware ∨ source = .software 0 then .enters KERNEL_CS (address (stub v)) true
      else .general_protection (v * 8 + 2) := by
  by_cases call : v = 0x80
  · subst call
    obtain ⟨before,set⟩ := construct_system address idt
    rw [deliver_set source set]
    have any : ∀ cpl : BitVec 2, cpl ≤ 3 := by decide
    cases source with
    | hardware => rfl
    | software cpl => exact if_pos (any cpl)
  · obtain ⟨before,set⟩ := construct_intr address idt inside call
    rw [deliver_set source set,if_neg call]
    cases source with
    | hardware => rfl
    | software cpl =>
      simp

/-- User code cannot raise a page fault by `int`. -/
theorem vectors_delivered_page_fault :
    deliver (fun i => (construct_idt (fun _ => 0x400000) (fun _ => default) i).val) 14 (.software 3) =
      .general_protection 114 :=
  vectors_delivered (fun _ => 0x400000) (fun _ => default) (.software 3) (by decide)

end Mp3Kernel.Gates

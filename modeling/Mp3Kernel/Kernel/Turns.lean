import Mp3Kernel.Lib.RoundRobin
import Mp3Kernel.Kernel.SchedRules

/-!
The turns that the timer gives to the process trees: `get_next_task` looks for
an active tree behind the current one and then before it, and `set_cur_task`
takes the next current tree from the task that it found.
-/
namespace Mp3Kernel.Turns
open Mp3Kernel.Memory Mp3Kernel.Tasks Mp3Kernel.Scheduler Mp3Kernel.RoundRobin

/-- The active process trees. -/
def active (s : Sched) : Finset Nat := (Finset.range s.max_ptrees).filter (fun p => s.ptree_vector.getLsbD p = true)

/-- The switch of one tick. -/
def tick (k : Kernel) : Kernel := switch_task (get_next_task k) k

def ticks (k : Kernel) : Nat → Kernel
  | 0 => k
  | n + 1 => tick (ticks k n)

/-- The leaf of each active tree belongs to it. -/
def Rooted (k : Kernel) : Prop := ∀ p ∈ active k.scheduler, (k.tasks (k.scheduler.ptree_tasks p)).ptid = p

variable {k : Kernel} {v : Word} {p : Nat}

theorem bit_positive_iff {j : Nat} (low : j < 31) : 0 < (v &&& bit j).toInt ↔ v.getLsbD j = true := by
  have values : ∀ j : Fin 31, 0 < (BitVec.twoPow 32 j.val).toInt := by decide
  have power : bit j = BitVec.twoPow 32 j := by rw [bit,Nat.mod_eq_of_lt (by omega),BitVec.twoPow]
  rw [power,BitVec.and_twoPow]
  split
  · exact iff_of_true (values ⟨j,low⟩) ‹_›
  · exact iff_of_false (by decide) ‹_›

/-- The search finds the first active tree of its range. -/
theorem active_ptree_cases {i n : Nat} (few : i + n ≤ 31) :
    (∃ j, active_ptree v i n = some j ∧ i ≤ j ∧ j < i + n ∧ v.getLsbD j = true ∧
      ∀ l, i ≤ l → v.getLsbD l = true → j ≤ l) ∨
    active_ptree v i n = none ∧ ∀ l, i ≤ l → l < i + n → v.getLsbD l ≠ true := by
  induction n generalizing i with
  | zero => exact .inr ⟨rfl,fun l low high => absurd high (by omega)⟩
  | succ n ih =>
    rw [active_ptree]
    by_cases set_ : v.getLsbD i = true
    · rw [if_pos ((bit_positive_iff (by omega)).mpr set_)]
      exact .inl ⟨i,rfl,le_rfl,by omega,set_,fun l low _ => low⟩
    · rw [if_neg (fun positive => set_ ((bit_positive_iff (by omega)).mp positive))]
      have later (l : Nat) (low : i ≤ l) (bit : v.getLsbD l = true) : i + 1 ≤ l := by
        by_contra first
        obtain rfl : l = i := by omega
        exact set_ bit
      rcases ih (i := i + 1) (by omega) with ⟨j,found,low,high,bit,least⟩ | ⟨missing,clear⟩
      · exact .inl ⟨j,found,by omega,by omega,bit,fun l low bit => least l (later l low bit) bit⟩
      · refine .inr ⟨missing,?_⟩
        intro l low high bit
        exact clear l (later l low bit) (by omega) bit

theorem mem_active {s : Sched} : p ∈ active s ↔ p < s.max_ptrees ∧ s.ptree_vector.getLsbD p = true := by
  rw [active,Finset.mem_filter,Finset.mem_range]

/-- The next task is the leaf of the active tree that follows. -/
theorem get_next_task_follows (few : k.scheduler.max_ptrees ≤ 31) (current : k.scheduler.cur_ptree = p)
    (member : p ∈ active k.scheduler) : ∃ q, Follows (active k.scheduler) p q ∧
      get_next_task k = k.scheduler.ptree_tasks q := by
  obtain ⟨inside,set_⟩ := mem_active.mp member
  have start : u32 (k.scheduler.cur_ptree + 1) = p + 1 := by rw [u32_small (by omega) (by omega)]; omega
  have stop : u32 k.scheduler.cur_ptree = p := by rw [u32_small (by omega) (by omega)]; omega
  simp only [get_next_task,start,stop]
  rcases active_ptree_cases (v := k.scheduler.ptree_vector) (i := p + 1) (n := k.scheduler.max_ptrees - (p + 1))
    (by omega) with ⟨q,found,low,high,bit,least⟩ | ⟨missing,clear⟩
  · rw [found]
    refine ⟨q,⟨mem_active.mpr ⟨by omega,bit⟩,.inl ⟨low,?_⟩⟩,rfl⟩
    intro r other larger
    exact least r larger (mem_active.mp other).2
  · rw [missing]
    have largest (r : Nat) (other : r ∈ active k.scheduler) : r ≤ p := by
      obtain ⟨below,bit⟩ := mem_active.mp other
      by_contra larger
      exact clear r (by omega) (by omega) bit
    rcases active_ptree_cases (v := k.scheduler.ptree_vector) (i := 0) (n := p) (by omega)
      with ⟨q,found,low,high,bit,least⟩ | ⟨missing',clear'⟩
    · rw [found]
      refine ⟨q,⟨mem_active.mpr ⟨by omega,bit⟩,.inr ⟨largest,?_⟩⟩,rfl⟩
      intro r other
      exact least r (Nat.zero_le r) (mem_active.mp other).2
    · rw [missing',current]
      refine ⟨p,⟨member,.inr ⟨largest,?_⟩⟩,rfl⟩
      intro r other
      by_contra smaller
      exact clear' r (Nat.zero_le r) (by omega) (mem_active.mp other).2

/-! ### Ticks -/

/-- A tick makes the next tree current and runs its leaf. -/
theorem tick_follows (few : k.scheduler.max_ptrees ≤ 31) (rooted : Rooted k) (current : k.scheduler.cur_ptree = p)
    (member : p ∈ active k.scheduler) : ∃ q, Follows (active k.scheduler) p q ∧ (tick k).tasks = k.tasks ∧
      (tick k).scheduler = { k.scheduler with cur_task := k.scheduler.ptree_tasks q, cur_ptree := q } := by
  obtain ⟨q,follows,next⟩ := get_next_task_follows few current member
  refine ⟨q,follows,switch_task_tasks _ _,?_⟩
  rw [tick,switch_task_scheduler,next,set_cur_task,rooted q follows.1]

/-- The timer interrupt makes the same switch, whatever context it saves. -/
theorem timer_tick_scheduler (regs : Regs) (frame : IretFrame)
    (number : (k.tasks (get_next_task k)).pid = get_next_task k) :
    (timer_tick regs frame k).scheduler = (tick k).scheduler := by
  have same := saved_tick_scheduler regs frame k
  have next : get_next_task (saved_tick regs frame k) = get_next_task k := by rw [get_next_task,get_next_task,same]
  obtain ⟨tss,state,saved⟩ := saved_tick_same regs frame k (get_next_task k)
  rw [timer_tick_eq,next,saved,number,tick,switch_task_scheduler,switch_task_scheduler,set_cur_task,set_cur_task,
    same,saved]

/-- What stays over the ticks, and the tree that is current after them. -/
structure Turning (k k' : Kernel) (p : Nat) : Prop where
  trees : k'.scheduler.max_ptrees = k.scheduler.max_ptrees ∧ k'.scheduler.ptree_vector = k.scheduler.ptree_vector ∧
    k'.scheduler.ptree_tasks = k.scheduler.ptree_tasks
  tasks : k'.tasks = k.tasks
  current : k'.scheduler.cur_ptree = p
  member : p ∈ active k.scheduler

theorem Turning.active_eq {k' : Kernel} (turning : Turning k k' p) : active k'.scheduler = active k.scheduler := by
  rw [active,active,turning.trees.1,turning.trees.2.1]

theorem Turning.tick {k' : Kernel} (few : k.scheduler.max_ptrees ≤ 31) (rooted : Rooted k) (turning : Turning k k' p) :
    ∃ q, Follows (active k.scheduler) p q ∧ Turning k (Turns.tick k') q ∧
      (Turns.tick k').scheduler.cur_task = k.scheduler.ptree_tasks q := by
  have few' : k'.scheduler.max_ptrees ≤ 31 := turning.trees.1 ▸ few
  have rooted' : Rooted k' := by
    intro p member
    rw [turning.active_eq] at member
    rw [turning.tasks,turning.trees.2.2]
    exact rooted p member
  obtain ⟨q,follows,tasks,scheduler⟩ := tick_follows few' rooted' turning.current (turning.active_eq ▸ turning.member)
  rw [turning.active_eq] at follows
  refine ⟨q,follows,⟨?_,tasks.trans turning.tasks,?_,follows.1⟩,?_⟩
  · rw [scheduler]
    exact turning.trees
  · rw [scheduler]
  · rw [scheduler]
    exact congrFun turning.trees.2.2 q

/-- From any active tree on the ticks give each active tree its turn. -/
theorem ticks_turn {start : Nat} (few : k.scheduler.max_ptrees ≤ 31) (rooted : Rooted k)
    (current : k.scheduler.cur_ptree = start) (member : start ∈ active k.scheduler) : ∃ turn : Nat → Nat, turn 0 = start ∧
      ∀ t, Turning k (ticks k t) (turn t) ∧ Follows (active k.scheduler) (turn t) (turn (t + 1)) ∧
        (ticks k (t + 1)).scheduler.cur_task = k.scheduler.ptree_tasks (turn (t + 1)) := by
  have turning (t : Nat) : Turning k (ticks k t) (ticks k t).scheduler.cur_ptree.toNat := by
    induction t with
    | zero => exact ⟨⟨rfl,rfl,rfl⟩,rfl,by rw [ticks,current]; rfl,by rw [ticks,current]; exact member⟩
    | succ t ih =>
      obtain ⟨q,-,next,-⟩ := ih.tick few rooted
      have same : (ticks k (t + 1)).scheduler.cur_ptree.toNat = q := by rw [ticks,next.current,Int.toNat_natCast]
      rw [same]
      exact next
  refine ⟨fun t => (ticks k t).scheduler.cur_ptree.toNat,by simp only [ticks,current,Int.toNat_natCast],?_⟩
  intro t
  obtain ⟨q,follows,next,runs⟩ := (turning t).tick few rooted
  have same : (ticks k (t + 1)).scheduler.cur_ptree.toNat = q := by rw [ticks,next.current,Int.toNat_natCast]
  simp only [same]
  exact ⟨turning t,follows,runs⟩

/-- The scheduler is a round robin: each tick makes the active tree that follows
    current and runs its leaf, and in each window of as many ticks as there are
    active trees every one of them has exactly one turn. -/
theorem ticks_take_turns {start : Nat} (few : k.scheduler.max_ptrees ≤ 31) (rooted : Rooted k)
    (current : k.scheduler.cur_ptree = start) (member : start ∈ active k.scheduler) : ∃ turn : Nat → Nat,
      turn 0 = start ∧ (∀ t, Follows (active k.scheduler) (turn t) (turn (t + 1))) ∧
      (∀ t, (ticks k (t + 1)).scheduler.cur_ptree = turn (t + 1) ∧
        (ticks k (t + 1)).scheduler.cur_task = k.scheduler.ptree_tasks (turn (t + 1)) ∧
        turn (t + 1) ∈ active k.scheduler) ∧
      ∀ t, ∀ p ∈ active k.scheduler, ∃! i, i < (active k.scheduler).card ∧ turn (t + 1 + i) = p := by
  obtain ⟨turn,first,turns⟩ := ticks_turn few rooted current member
  have steps (t : Nat) := (turns t).2.1
  refine ⟨turn,first,steps,?_,?_⟩
  · intro t
    exact ⟨(turns (t + 1)).1.current,(turns t).2.2,(turns (t + 1)).1.member⟩
  · intro t p active_
    exact window_turn steps (first.symm ▸ member) (t + 1) active_

/-- Trees 1, 2 and 4 of five are active, and 1 is current. -/
def three_trees : Kernel :=
  { (default : Kernel) with
    scheduler := { scheduler with ptree_vector := 0b10110, max_ptrees := 5, ptree_tasks := fun p => p + 1, cur_ptree := 1 }
    tasks := fun pid => { (default : Task) with ptid := pid - 1 } }

theorem ticks_take_turns_three : ∃ turn : Nat → Nat, turn 0 = 1 ∧
    (∀ t, (ticks three_trees (t + 1)).scheduler.cur_ptree = turn (t + 1)) ∧
    ∀ t, ∀ p ∈ active three_trees.scheduler, ∃! i, i < (active three_trees.scheduler).card ∧ turn (t + 1 + i) = p := by
  have rooted : Rooted three_trees := by
    intro p _
    simp [three_trees]
  obtain ⟨turn,first,-,runs,window⟩ := ticks_take_turns (k := three_trees) (by decide) rooted (Eq.refl ((1 : Nat) : Int))
    (mem_active.mpr ⟨by decide,by decide⟩)
  exact ⟨turn,first,fun t => (runs t).1,window⟩

end Mp3Kernel.Turns

import Mp3Kernel.Lib.CString
import Mp3Kernel.Kernel.OpenName
import Mp3Kernel.Kernel.UserPointers
import Mathlib.Logic.Function.Basic

/-!
The library of the user programs, `ece391support.c`, over the memory of a
running task and the system calls it makes. A program's own page is mapped, so
its own loads and stores do not fault; a loop over a string carries fuel and
yields nothing when that runs out.
-/
namespace Mp3Kernel.UserLibrary
open Mp3Kernel.Memory Mp3Kernel.CString Mp3Kernel.Filesys Mp3Kernel.Tasks
open Mp3Kernel.Tty (write_char terminal_write bytes_of)
open Mp3Kernel.Descriptors (is_user_ptr is_open Table)
open Mp3Kernel.UserPointers (Machine do_write)

def ece391_strlen (m : Mem) (s : Nat) : Nat → Option Nat
  | 0 => none
  | fuel + 1 => if m s = 0 then some 0 else (ece391_strlen m (s + 1) fuel).map (· + 1)

def ece391_strcpy (dst src : Nat) (m : Mem) : Nat → Option Mem
  | 0 => none
  | fuel + 1 =>
    let stored := Function.update m dst (m src)
    -- the character just stored is tested
    if m src = 0 then some stored else ece391_strcpy (dst + 1) (src + 1) stored fuel

def ece391_strncmp (m : Mem) (s1 s2 : Nat) : Nat → Int
  | 0 => 0
  | n + 1 =>
    if m s1 = m s2 then
      if m s1 = 0 ∨ n = 0 then 0 else ece391_strncmp m (s1 + 1) (s2 + 1) n
    else (m s1).toNat - (m s2).toNat

def ece391_strcmp (m : Mem) (s1 s2 : Nat) : Nat → Option Int
  | 0 => none
  | fuel + 1 =>
    if m s1 = m s2 then if m s1 = 0 then some 0 else ece391_strcmp m (s1 + 1) (s2 + 1) fuel
    else some ((m s1).toNat - (m s2).toNat)

/-- What `write` returns is not looked at. -/
def ece391_fdputs (fd : Int) (s fuel : Nat) (m : Machine) : Option Machine :=
  (ece391_strlen m.mem s fuel).bind fun len => (do_write fd s len m).map Prod.snd

/-! ### System calls on the descriptor table -/

def ece391_open (file_sys : FileSys) (filename fuel : Nat) (m : Machine) : Option (Int × Machine) :=
  (OpenName.do_open file_sys (fun i => m.mem (filename + i)) m.task fuel).map fun (fd,task,_) => (fd,{ m with task := task })

def ece391_close (fd : Int) (m : Machine) : Int × Machine :=
  let (ret,task) := Descriptors.do_close fd m.task
  (ret,{ m with task := task })

/-! ### Strings -/

section
variable {m : Mem} {s t : List Byte} {a dst src : Nat}

theorem strlen_eq (text : Text m a s) {fuel : Nat} (enough : s.length < fuel) :
    ece391_strlen m a fuel = some s.length := by
  obtain ⟨fuel,rfl⟩ : ∃ rest, fuel = rest + 1 := ⟨fuel - 1,by omega⟩
  induction s generalizing a fuel with
  | nil =>
    have zero := text.terminator
    rw [List.length_nil,Nat.add_zero] at zero
    rw [ece391_strlen,if_pos zero]
    rfl
  | cons c s ih =>
    rw [List.length_cons] at enough
    obtain ⟨fuel,rfl⟩ : ∃ rest, fuel = rest + 1 := ⟨fuel - 1,by omega⟩
    rw [ece391_strlen,if_neg (text.head.1 ▸ text.head.2),ih text.tail fuel (by omega)]
    rfl

/-- A string moves to a lower address, its terminator included. -/
theorem strcpy_eq (text : Text m src s) (down : dst ≤ src) {fuel : Nat} (enough : s.length < fuel) :
    ece391_strcpy dst src m fuel = some (storeBytes m dst (s ++ [0])) := by
  obtain ⟨fuel,rfl⟩ : ∃ rest, fuel = rest + 1 := ⟨fuel - 1,by omega⟩
  induction s generalizing m dst src fuel with
  | nil =>
    have zero := text.terminator
    rw [List.length_nil,Nat.add_zero] at zero
    rw [ece391_strcpy,if_pos zero,zero]
    congr 1
    funext b
    by_cases here : b = dst
    · subst here
      rw [Function.update_self,storeBytes,if_pos (by simp)]
      simp
    · rw [Function.update_of_ne here,storeBytes_outside (by simp; omega)]
  | cons c s ih =>
    rw [List.length_cons] at enough
    obtain ⟨fuel,rfl⟩ : ∃ rest, fuel = rest + 1 := ⟨fuel - 1,by omega⟩
    have later : Text (Function.update m dst c) (src + 1) s :=
      text.tail.congr (fun b low _ => Function.update_of_ne (by omega) _ _)
    rw [ece391_strcpy,if_neg (text.head.1 ▸ text.head.2),text.head.1]
    rw [ih later (by omega) fuel (by omega)]
    congr 1
    funext b
    by_cases here : b = dst
    · subst here
      rw [storeBytes_outside (by omega),Function.update_self,storeBytes,if_pos (by simp)]
      simp
    · by_cases inside : dst + 1 ≤ b ∧ b < dst + 1 + (s.length + 1)
      · obtain ⟨i,rfl⟩ : ∃ i, b = dst + 1 + i := ⟨b - (dst + 1),by omega⟩
        have place : dst + 1 + i = dst + (i + 1) := by omega
        rw [storeBytes_inside (by simp; omega),place,storeBytes_inside (by simp; omega)]
        rfl
      · rw [storeBytes_outside (by simp; omega),storeBytes_outside (by simp; omega),Function.update_of_ne here]

/-- Two strings compare equal if they are. -/
theorem strcmp_zero_iff {b : Nat} (text : Text m a s) (other : Text m b t) {fuel : Nat} (enough : s.length < fuel) :
    ∃ r, ece391_strcmp m a b fuel = some r ∧ (r = 0 ↔ s = t) := by
  induction fuel generalizing a b s t with
  | zero => omega
  | succ fuel ih =>
    rw [ece391_strcmp]
    by_cases same : m a = m b
    · rw [if_pos same]
      cases s with
      | nil =>
        have zero := text.terminator
        rw [List.length_nil,Nat.add_zero] at zero
        refine ⟨0,if_pos zero,fun _ => ?_,fun _ => rfl⟩
        cases t with
        | nil => rfl
        | cons d t =>
          obtain ⟨first,nonzero⟩ := other.head
          exact absurd (first.symm.trans (same.symm.trans zero)) nonzero
      | cons c s =>
        obtain ⟨first,nonzero⟩ := text.head
        rw [if_neg (first ▸ nonzero)]
        cases t with
        | nil =>
          have zero := other.terminator
          rw [List.length_nil,Nat.add_zero] at zero
          exact absurd (first.symm.trans (same.trans zero)) nonzero
        | cons d t =>
          rw [List.length_cons] at enough
          obtain ⟨r,compared,equal⟩ := ih text.tail other.tail (by omega)
          have heads : c = d := first.symm.trans (same.trans other.head.1)
          refine ⟨r,compared,equal.trans ?_⟩
          rw [heads,List.cons.injEq]
          exact (and_iff_right rfl).symm
    · rw [if_neg same]
      refine ⟨_,rfl,fun zero => ?_,?_⟩
      · have values : (m a).toNat = (m b).toNat := by omega
        exact absurd (BitVec.eq_of_toNat_eq values) same
      · rintro rfl
        have alike : m a = m b := by
          cases s with
          | nil =>
            have zero := text.terminator
            have zero' := other.terminator
            rw [List.length_nil,Nat.add_zero] at zero zero'
            rw [zero,zero']
          | cons c s => rw [text.head.1,other.head.1]
        exact absurd alike same

/-- The comparison finds a string where its characters are. -/
theorem strncmp_zero_iff (text : Text m a t) {s1 : Nat} : ece391_strncmp m s1 a t.length = 0 ↔ Bytes m s1 t := by
  induction t generalizing a s1 with
  | nil => exact ⟨fun _ => bytes_nil,fun _ => rfl⟩
  | cons c t ih =>
    obtain ⟨first,nonzero⟩ := text.head
    rw [List.length_cons,ece391_strncmp,first,bytes_cons]
    by_cases same : m s1 = c
    · rw [if_pos same,same]
      by_cases last : t.length = 0
      · rw [if_pos (.inr last)]
        obtain rfl := List.length_eq_zero_iff.mp last
        exact ⟨fun _ => ⟨rfl,bytes_nil⟩,fun _ => rfl⟩
      · rw [if_neg (by tauto),ih text.tail]
        exact ⟨fun rest => ⟨rfl,rest⟩,And.right⟩
    · rw [if_neg same]
      constructor
      · intro zero
        have values : (m s1).toNat = c.toNat := by omega
        exact absurd (BitVec.eq_of_toNat_eq values) same
      · exact fun both => absurd both.1 same

end

/-! ### The program's page -/

/-- The range lies in the page at `EXECUTION_ADDR`. -/
def InPage (a n : Nat) : Prop := EXECUTION_ADDR ≤ a ∧ a + n ≤ EXECUTION_ADDR + SIZE_4MB_PAGE

/-- The page of a task is mapped and apart from the alias of its frame, and the
    task's output goes to its terminal. -/
structure Running (m : Machine) : Prop where
  pid : 0 ≤ m.task.pid ∧ m.task.pid < 10
  mapped : ∀ a, EXECUTION_ADDR ≤ a → a < EXECUTION_ADDR + SIZE_4MB_PAGE → m.mapped a = true
  table : Table m.task.files

/-- The bytes printed on the task's terminal. -/
def print (m : Machine) (bytes : List Byte) : Machine :=
  { m with console := bytes.foldl (write_char m.cur_ptree) m.console }

variable {m : Machine} {a n : Nat} {s : List Byte}

@[simp] theorem print_task (m : Machine) (s : List Byte) : (print m s).task = m.task := rfl
@[simp] theorem print_mem (m : Machine) (s : List Byte) : (print m s).mem = m.mem := rfl
@[simp] theorem print_nil (m : Machine) : print m [] = m := rfl
@[simp] theorem print_print (m : Machine) (s t : List Byte) : print (print m s) t = print m (s ++ t) := by
  simp [print,List.foldl_append]

theorem Running.print (running : Running m) (s : List Byte) : Running (print m s) := ⟨running.pid,running.mapped,running.table⟩

theorem is_user_ptr_page (running : Running m) (low : EXECUTION_ADDR ≤ a) : is_user_ptr m.task a ≠ 0 := by
  have pid := running.pid
  rw [is_user_ptr,get_task_addr_eq pid.1 pid.2]
  dsimp only [SIZE_4MB_PAGE,EXECUTION_ADDR] at *
  rw [u32_small (by omega) (by omega),if_pos (by omega)]
  decide

theorem reaches_page (running : Running m) (inside : InPage a n) : m.reaches a n = true := by
  obtain ⟨low,high⟩ := inside
  refine UserPointers.reaches_iff.mpr (fun i below => running.mapped _ (by omega) (by omega))

theorem put_page (running : Running m) (inside : InPage a s.length) :
    m.put a s = some { m with mem := storeBytes m.mem a s } := by
  rw [UserPointers.Machine.put,if_pos (reaches_page running inside)]

/-- What lies at a pointer is printed. -/
theorem do_write_prints (running : Running m) (inside : InPage a s.length) (bytes : Bytes m.mem a s) :
    do_write 1 a s.length m = some (0,print m s) := by
  obtain ⟨opened,terminal⟩ := running.table.terminal 1 (.inr rfl)
  have pointer : a ≠ 0 := by
    have low := inside.1
    dsimp only [EXECUTION_ADDR] at low
    omega
  have read : bytes_of (fun i : Int => m.mem (a + i.toNat)) s.length = s := by
    rw [bytes_of,Int.toNat_natCast]
    exact bytes.eq_range
  rw [do_write,if_pos (is_user_ptr_page running inside.1),if_neg (by decide),if_neg (by decide),if_pos opened,terminal,
    Option.bind_some,UserPointers.Fops.write,Int.toNat_natCast,if_pos (.inr (reaches_page running inside)),if_neg pointer]
  simp only [terminal_write,read]
  by_cases empty : s = []
  · subst empty
    rfl
  · have positive := List.length_pos_iff.mpr empty
    rw [if_neg (by omega)]
    rfl

theorem fdputs_prints (running : Running m) (inside : InPage a s.length) (text : Text m.mem a s) {fuel : Nat}
    (enough : s.length < fuel) : ece391_fdputs 1 a fuel m = some (print m s) := by
  rw [ece391_fdputs,strlen_eq text enough,Option.bind_some,do_write_prints running inside text.bytes]
  rfl

end Mp3Kernel.UserLibrary

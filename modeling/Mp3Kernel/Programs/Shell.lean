import Mp3Kernel.Programs.Reading

/-!
The shell: it prompts, reads a line into a buffer of 1024 bytes, and hands it to
`execute` without its line break, until the line is `exit`. `session` is the same
conversation without the buffer, on the lines and the console alone.
-/
namespace Mp3Kernel.Shell
open Mp3Kernel.Memory Mp3Kernel.CString Mp3Kernel.Filesys Mp3Kernel.Tasks Mp3Kernel.UserLibrary
open Mp3Kernel.UserPointers (Machine do_read)
open Mp3Kernel.Screen (NEWLINE)
open Mp3Kernel.Tty (Console write_char terminal_read_start set_state echo_pending take_offset)

abbrev BUFSIZE : Nat := 1024

/-- Where the buffer and the strings of `main` lie. -/
structure Places where
  buf : Nat
  prompt : Nat
  exit_name : Nat
  read_failed : Nat
  no_such : Nat
  by_exception : Nat
  abnormally : Nat

section
-- `limit` is the fuel of the scans
variable (p : Places) (limit : Nat)

def report (rval : Int) (m : Machine) : Option Machine :=
  if rval = -1 then ece391_fdputs 1 p.no_such limit m
  else if rval = 256 then ece391_fdputs 1 p.by_exception limit m
  else if rval ≠ 0 then ece391_fdputs 1 p.abnormally limit m
  else some m

/-- What `main` does with the `cnt` bytes that it has read, before it goes on. -/
def obey (ece391_execute : Nat → Machine → Option (Int × Machine)) (go_on : Machine → Option (Int × Machine)) (cnt : Int)
    (m : Machine) : Option (Int × Machine) :=
  let cnt := if cnt > 0 ∧ m.mem (p.buf + (cnt - 1).toNat) = NEWLINE then cnt - 1 else cnt
  let m := { m with mem := Function.update m.mem (p.buf + cnt.toNat) 0 }
  (ece391_strcmp m.mem p.buf p.exit_name limit).bind fun order =>
    if order = 0 then some (0,m)
    else if m.mem p.buf = 0 then go_on m
    else (ece391_execute p.buf m).bind fun (rval,m) => (report p limit rval m).bind go_on

def main (read : Nat → Int → Machine → Option (Int × Machine)) (ece391_execute : Nat → Machine → Option (Int × Machine)) :
    Nat → Machine → Option (Int × Machine)
  | 0, _ => none
  | fuel + 1, m =>
    (ece391_fdputs 1 p.prompt limit m).bind fun m =>
      (read p.buf ((BUFSIZE - 1 : Nat) : Int) m).bind fun (cnt,m) =>
        if cnt = -1 then (ece391_fdputs 1 p.read_failed limit m).map fun m => (3,m)
        else obey p limit ece391_execute (main read ece391_execute fuel) cnt m

end

/-! ### The conversation -/

def Strings.prompt : List Byte := ['3','9','1','O','S','>',' '].map ascii
def Strings.exit_name : List Byte := ['e','x','i','t'].map ascii
def Strings.read_failed : List Byte :=
  ['r','e','a','d',' ','f','r','o','m',' ','k','e','y','b','o','a','r','d',' ','f','a','i','l','e','d','\n'
    ].map ascii
def Strings.no_such : List Byte := ['n','o',' ','s','u','c','h',' ','c','o','m','m','a','n','d','\n'].map ascii
def Strings.by_exception : List Byte :=
  ['p','r','o','g','r','a','m',' ','t','e','r','m','i','n','a','t','e','d',' ','b','y',' ','e','x','c','e','p','t',
    'i','o','n','\n'].map ascii
def Strings.abnormally : List Byte :=
  ['p','r','o','g','r','a','m',' ','t','e','r','m','i','n','a','t','e','d',' ','a','b','n','o','r','m','a','l','l',
    'y','\n'].map ascii

def answer (rval : Int) : List Byte :=
  if rval = -1 then Strings.no_such
  else if rval = 256 then Strings.by_exception
  else if rval ≠ 0 then Strings.abnormally
  else []

/-- The text shown on the shell's terminal. -/
def say (e : Int) (text : List Byte) (c : Console) : Console := text.foldl (write_char e) c

/-- The line without its line break. -/
def chomp (bytes : List Byte) : List Byte := if bytes.getLast? = some NEWLINE then bytes.dropLast else bytes

/-- Prompts, lines and answers in turn. A line that is not `exit` and not empty
    is executed. -/
def session (e : Int) (typed : Console → Option (List Byte) × Console) (execute : List Byte → Console → Int × Console) :
    Nat → Console → Option (Int × Console)
  | 0, _ => none
  | fuel + 1, c =>
    match typed (say e (Strings.prompt) c) with
    | (none,c) => some (3,say e (Strings.read_failed) c)
    | (some bytes,c) =>
      if chomp bytes = Strings.exit_name then some (0,c)
      else if chomp bytes = [] then session e typed execute fuel c
      else
        let (rval,c) := execute (chomp bytes) c
        session e typed execute fuel (say e (answer rval) c)

/-- What the wait of `terminal_read` comes to. -/
def keyed (e : Int) (wait : Console → Int × List Byte × Console) (c : Console) : Option (List Byte) × Console :=
  let (ret,bytes,c) := wait (set_state e .TERMINAL_READ (echo_pending e (take_offset c)))
  (if ret = -1 then none else some bytes,c)

/-- The wait ends with a line that was asked for, or fails. -/
def Keyboard (wait : Console → Int × List Byte × Console) : Prop :=
  ∀ c, (wait c).2.1.length ≤ BUFSIZE - 1 ∧
    ((wait c).1 = -1 ∨ (wait c).1 = (wait c).2.1.length ∧ ∀ b ∈ (wait c).2.1, b ≠ 0)

/-- A call that runs another program and comes back to the shell's own page. -/
def Executes (ece391_execute : Nat → Machine → Option (Int × Machine))
    (execute : List Byte → Console → Int × Console) : Prop :=
  ∀ (m : Machine) (command : Nat) (text : List Byte), Running m → Text m.mem command text →
    InPage command (text.length + 1) →
    ∃ m', ece391_execute command m = some ((execute text m.console).1,m') ∧ m'.console = (execute text m.console).2 ∧
      m'.cur_ptree = m.cur_ptree ∧ Running m' ∧
      ∀ a, EXECUTION_ADDR ≤ a → a < EXECUTION_ADDR + SIZE_4MB_PAGE → m'.mem a = m.mem a

/-- A string of the program, apart from the buffer. -/
structure Constant (p : Places) (limit : Nat) (mem : Mem) (a : Nat) (t : List Byte) : Prop where
  text : Text mem a t
  page : InPage a (t.length + 1)
  apart : a + t.length < p.buf ∨ p.buf + BUFSIZE ≤ a
  short : t.length < limit

def strings (p : Places) : List (Nat × List Byte) :=
  [(p.prompt,Strings.prompt),(p.exit_name,Strings.exit_name),(p.read_failed,Strings.read_failed),
    (p.no_such,Strings.no_such),(p.by_exception,Strings.by_exception),
    (p.abnormally,Strings.abnormally)]

structure Ready (p : Places) (limit : Nat) (m : Machine) : Prop where
  running : Running m
  page : InPage p.buf BUFSIZE
  constants : ∀ s ∈ strings p, Constant p limit m.mem s.1 s.2

variable {p : Places} {limit : Nat} {m m' : Machine}

theorem Ready.congr (ready : Ready p limit m) (running : Running m')
    (same : ∀ a, EXECUTION_ADDR ≤ a → a < EXECUTION_ADDR + SIZE_4MB_PAGE → a < p.buf ∨ p.buf + BUFSIZE ≤ a →
      m'.mem a = m.mem a) :
    Ready p limit m' := by
  refine ⟨running,ready.page,?_⟩
  intro s listed
  have constant := ready.constants s listed
  refine { constant with text := constant.text.congr ?_ }
  intro a low high
  have page := constant.page
  have apart := constant.apart
  exact same a (by have := page.1; omega) (by have := page.2; omega) (by omega)

theorem Ready.print (ready : Ready p limit m) (text : List Byte) : Ready p limit (UserLibrary.print m text) :=
  ready.congr (ready.running.print text) (fun _ _ _ _ => rfl)

/-- Each of its strings the shell can print. -/
theorem Ready.tells (ready : Ready p limit m) {s : Nat × List Byte} (listed : s ∈ strings p) :
    ece391_fdputs 1 s.1 limit m = some (UserLibrary.print m s.2) := by
  have constant := ready.constants s listed
  exact fdputs_prints ready.running ⟨constant.page.1,by have := constant.page.2; omega⟩ constant.text constant.short

theorem report_tells (ready : Ready p limit m) (rval : Int) :
    report p limit rval m = some (UserLibrary.print m (answer rval)) := by
  rw [report,answer]
  split
  · exact ready.tells (s := (p.no_such,_)) (.tail _ (.tail _ (.tail _ (.head _))))
  · split
    · exact ready.tells (s := (p.by_exception,_)) (.tail _ (.tail _ (.tail _ (.tail _ (.head _)))))
    · split
      · exact ready.tells (s := (p.abnormally,_)) (.tail _ (.tail _ (.tail _ (.tail _ (.tail _ (.head _))))))
      · rfl

/-! ### One line -/

theorem chomp_begins (bytes : List Byte) : chomp bytes <+: bytes := by
  rw [chomp]
  split
  · exact List.dropLast_prefix bytes
  · exact List.prefix_rfl

/-- The line break is looked for where the last byte was stored, -/
theorem last_stored (mem : Mem) (a : Nat) (bytes : List Byte) :
    (if (bytes.length : Int) > 0 ∧ storeBytes mem a bytes (a + ((bytes.length : Int) - 1).toNat) = NEWLINE then
      (bytes.length : Int) - 1 else bytes.length).toNat = (chomp bytes).length := by
  by_cases empty : bytes = []
  · subst empty
    rfl
  have positive := List.length_pos_iff.mpr empty
  have last := bytes_storeBytes mem a bytes (bytes.length - 1) (by omega)
  have place : ((bytes.length : Int) - 1).toNat = bytes.length - 1 := by omega
  have ends : bytes.getLast? = some NEWLINE ↔ bytes[bytes.length - 1] = NEWLINE := by
    rw [List.getLast?_eq_getElem?,List.getElem?_eq_getElem (by omega),Option.some.injEq]
  rw [place,last,chomp]
  by_cases broken : bytes[bytes.length - 1] = NEWLINE
  · rw [if_pos ⟨by omega,broken⟩,if_pos (ends.mpr broken),List.length_dropLast]
    omega
  · rw [if_neg (fun both => broken both.2),if_neg (mt ends.mp broken)]
    omega

/-- and the terminator replaces it. -/
theorem line_stored (mem : Mem) (a : Nat) {bytes : List Byte} (plain : ∀ b ∈ bytes, b ≠ 0) :
    Text (Function.update (storeBytes mem a bytes) (a + (chomp bytes).length) 0) a (chomp bytes) := by
  have short := (chomp_begins bytes).length_le
  refine ⟨?_,Function.update_self ..,fun b inside => plain b ((chomp_begins bytes).subset inside)⟩
  intro i inside
  rw [Function.update_of_ne (by omega),bytes_storeBytes mem a bytes i (by omega)]
  exact ((chomp_begins bytes).getElem inside).symm

theorem read_keyed (file_sys : FileSys) {wait : Console → Int × List Byte × Console} (ready : Ready p limit m)
    (keyboard : Keyboard wait) :
    do_read file_sys wait 0 p.buf ((BUFSIZE - 1 : Nat) : Int) m =
      let (ret,bytes,c) := wait (set_state m.cur_ptree .TERMINAL_READ (echo_pending m.cur_ptree (take_offset m.console)))
      some (ret,{ m with mem := storeBytes m.mem p.buf bytes, console := c }) := by
  have page := ready.page
  obtain ⟨opened,terminal⟩ := ready.running.table.terminal 0 (.inl rfl)
  have pointer : (p.buf == 0) = false := by
    have low := page.1
    dsimp only [EXECUTION_ADDR] at low
    rw [beq_eq_false_iff_ne]
    omega
  rw [do_read,if_pos (is_user_ptr_page ready.running page.1),if_neg (by decide),if_neg (by decide),if_pos opened,terminal,
    Option.bind_some,UserPointers.Fops.read,UserPointers.terminal_read,terminal_read_start,pointer]
  rw [if_neg (by decide),if_neg (by decide)]
  dsimp only
  generalize answer_eq : wait _ = answered
  obtain ⟨ret,bytes,c⟩ := answered
  have short := (keyboard (set_state m.cur_ptree .TERMINAL_READ (echo_pending m.cur_ptree (take_offset m.console)))).1
  rw [answer_eq] at short
  have running : Running { m with console := c } := ⟨ready.running.pid,ready.running.mapped,ready.running.table⟩
  dsimp only
  rw [put_page running ⟨page.1,by have high := page.2; dsimp only [BUFSIZE] at *; omega⟩]
  rfl

/-! ### The shell -/

variable {ece391_execute : Nat → Machine → Option (Int × Machine)} {execute : List Byte → Console → Int × Console}
  {go_on : Machine → Option (Int × Machine)} {goes_on : Console → Option (Int × Console)}

/-- What the shell does with a line, where the rest of its run is known. -/
theorem obey_converses (executes : Executes ece391_execute execute) (enough : BUFSIZE ≤ limit) (ready : Ready p limit m)
    {bytes : List Byte} (short : bytes.length ≤ BUFSIZE - 1) (plain : ∀ b ∈ bytes, b ≠ 0) (c : Console)
    (later : ∀ {m' : Machine}, Ready p limit m' → m'.cur_ptree = m.cur_ptree →
      (go_on m').map (fun (ret,m) => (ret,m.console)) = goes_on m'.console) :
    (obey p limit ece391_execute go_on bytes.length { m with mem := storeBytes m.mem p.buf bytes, console := c }).map
        (fun (ret,m) => (ret,m.console)) =
      if chomp bytes = Strings.exit_name then some (0,c)
      else if chomp bytes = [] then goes_on c
      else goes_on (say m.cur_ptree (answer (execute (chomp bytes) c).1) (execute (chomp bytes) c).2) := by
  have length := (chomp_begins bytes).length_le
  have text := line_stored m.mem p.buf plain
  have outside (a : Nat) (apart : a < p.buf ∨ p.buf + BUFSIZE ≤ a) :
      Function.update (storeBytes m.mem p.buf bytes) (p.buf + (chomp bytes).length) 0 a = m.mem a := by
    dsimp only [BUFSIZE] at *
    rw [Function.update_of_ne (by omega)]
    exact storeBytes_outside (by omega)
  rw [obey]
  dsimp only
  rw [last_stored]
  generalize Function.update (storeBytes m.mem p.buf bytes) (p.buf + (chomp bytes).length) 0 = mem at *
  have stored : Ready p limit { m with mem := mem, console := c } :=
    ready.congr ⟨ready.running.pid,ready.running.mapped,ready.running.table⟩ (fun a _ _ apart => outside a apart)
  obtain ⟨order,compared,equal⟩ := strcmp_zero_iff text (stored.constants (p.exit_name,_) (.tail _ (.head _))).text
    (show (chomp bytes).length < limit by dsimp only [BUFSIZE] at *; omega)
  dsimp only at compared
  rw [compared,Option.bind_some]
  by_cases exits : chomp bytes = Strings.exit_name
  · rw [if_pos (equal.mpr exits),if_pos exits]
    rfl
  rw [if_neg (mt equal.mp exits),if_neg exits]
  by_cases empty : chomp bytes = []
  · have zero := text.terminator
    rw [empty,List.length_nil,Nat.add_zero] at zero
    rw [if_pos zero,if_pos empty]
    exact later stored rfl
  have nonzero : mem p.buf ≠ 0 := by
    obtain ⟨d,line,split⟩ := List.exists_cons_of_ne_nil empty
    rw [split] at text
    exact text.head.1 ▸ text.head.2
  rw [if_neg nonzero,if_neg empty]
  obtain ⟨m',ran,shows,tree,running,kept⟩ := executes _ _ _ stored.running text
    ⟨ready.page.1,by have high := ready.page.2; dsimp only [BUFSIZE] at *; omega⟩
  have came_back := stored.congr running (fun a low high _ => kept a low high)
  dsimp only at ran shows tree
  rw [ran,Option.bind_some]
  dsimp only
  rw [report_tells came_back,Option.bind_some,later (came_back.print _) tree,← shows,← tree]
  rfl

/-- The program leads the conversation, whatever is typed and executed: no line
    is cut, run twice or run out of turn, and only `exit` or a failed read ends
    it. By induction on the turns. -/
theorem main_converses (file_sys : FileSys) {wait : Console → Int × List Byte × Console} (keyboard : Keyboard wait)
    (executes : Executes ece391_execute execute) (enough : BUFSIZE ≤ limit) (fuel : Nat) (ready : Ready p limit m) :
    (main p limit (do_read file_sys wait 0) ece391_execute fuel m).map (fun (ret,m) => (ret,m.console)) =
      session m.cur_ptree (keyed m.cur_ptree wait) execute fuel m.console := by
  induction fuel generalizing m with
  | zero => rfl
  | succ fuel ih =>
    have prompts := ready.tells (s := (p.prompt,_)) (.head _)
    have prompted := ready.print Strings.prompt
    have shown : say m.cur_ptree Strings.prompt m.console = (UserLibrary.print m Strings.prompt).console := rfl
    have tree : m.cur_ptree = (UserLibrary.print m Strings.prompt).cur_ptree := rfl
    rw [main,session,prompts,Option.bind_some,shown,tree]
    generalize UserLibrary.print m Strings.prompt = m at *
    rw [read_keyed file_sys prompted keyboard,keyed]
    obtain ⟨short,ends⟩ := keyboard (set_state m.cur_ptree .TERMINAL_READ (echo_pending m.cur_ptree (take_offset m.console)))
    generalize wait (set_state m.cur_ptree .TERMINAL_READ (echo_pending m.cur_ptree (take_offset m.console))) = answered at *
    obtain ⟨ret,bytes,c⟩ := answered
    dsimp only at short ends ⊢
    rw [Option.bind_some]
    dsimp only
    rcases ends with rfl | ⟨rfl,plain⟩
    · have stored : Ready p limit { m with mem := storeBytes m.mem p.buf bytes, console := c } := by
        refine prompted.congr ⟨prompted.running.pid,prompted.running.mapped,prompted.running.table⟩ ?_
        intro a _ _ apart
        exact storeBytes_outside (by dsimp only [BUFSIZE] at *; omega)
      have told := stored.tells (s := (p.read_failed,_)) (.tail _ (.tail _ (.head _)))
      dsimp only at told
      rw [if_pos rfl,if_pos rfl,told]
      simp only [Option.map_some,UserLibrary.print,say]
    · have served : (bytes.length : Int) ≠ -1 := by omega
      rw [if_neg served,if_neg served]
      refine obey_converses executes enough prompted short plain c ?_
      intro m' ready' same
      rw [ih ready',same]

def places : Places where
  buf := 0x8001000
  prompt := 0x8000000
  exit_name := 0x8000010
  read_failed := 0x8000020
  no_such := 0x8000040
  by_exception := 0x8000060
  abnormally := 0x8000090

/-- A task with the strings in its page. -/
def machine : Machine :=
  { UserPointers.machine with
    task := Descriptors.new_task
    mem := (strings places).foldl (fun mem s => storeBytes mem s.1 (s.2 ++ [0])) fun _ => 0 }

theorem ready_machine : Ready places 1024 machine := by
  refine ⟨⟨by decide,fun _ _ _ => rfl,(Descriptors.sound_init_files FileRead.reader.files).table⟩,by unfold InPage; decide,?_⟩
  intro s listed
  simp only [strings,List.mem_cons,List.not_mem_nil,or_false] at listed
  rcases listed with rfl | rfl | rfl | rfl | rfl | rfl
  all_goals
    exact ⟨⟨by unfold Bytes; decide,by decide,by decide⟩,by unfold InPage; decide,.inl (by decide),by decide⟩

/-- `ls`, and once that has run, `exit`. -/
def typing (c : Console) : Int × List Byte × Console :=
  if c.current_terminal_index = 1 then (5,['e','x','i','t','\n'].map ascii,c) else (3,['l','s','\n'].map ascii,c)

/-- A program that is seen to have run. -/
def ran (c : Console) : Console := { c with current_terminal_index := 1 }

theorem main_converses_ls : ∃ m', main places 1024 (do_read FileRead.short_file typing 0)
    (fun _ m => some (0,{ m with console := ran m.console })) 3 machine = some (0,m') ∧
      m'.console.current_terminal_index = 1 := by
  have keyboard : Keyboard typing := by
    intro c
    rw [typing]
    split
    all_goals
      dsimp only
      exact ⟨by decide,.inr ⟨by decide,by decide⟩⟩
  have executes : Executes (fun _ m => some (0,{ m with console := ran m.console })) (fun _ c => (0,ran c)) := by
    intro m _ _ running _ _
    exact ⟨_,rfl,rfl,rfl,⟨running.pid,running.mapped,running.table⟩,fun _ _ _ => rfl⟩
  have talk := congrArg (Option.map fun r => (r.1,r.2.current_terminal_index))
    (main_converses FileRead.short_file keyboard executes le_rfl 3 ready_machine)
  have ends : (session machine.cur_ptree (keyed machine.cur_ptree typing) (fun _ c => (0,ran c)) 3 machine.console).map
      (fun r => (r.1,r.2.current_terminal_index)) = some (0,1) := by decide
  rw [ends,Option.map_map] at talk
  obtain ⟨⟨ret,m'⟩,returned,same⟩ := Option.map_eq_some_iff.mp talk
  obtain ⟨rfl,index⟩ := Prod.mk.inj same
  exact ⟨m',returned,index⟩

end Mp3Kernel.Shell

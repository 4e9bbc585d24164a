import Mp3Kernel.Programs.Grep
import Mp3Kernel.Programs.Ls
import Mathlib.Data.List.TakeWhile

/-!
The program grep as a whole: it goes through the directory and hands each name
that does not begin with a dot to `do_one_file`, which opens and closes the file
beside the directory.
-/
namespace Mp3Kernel.GrepDirectory
open Mp3Kernel.Memory Mp3Kernel.CString Mp3Kernel.Filesys Mp3Kernel.Tasks Mp3Kernel.UserLibrary Mp3Kernel.Reading
open Mp3Kernel.Grep Mp3Kernel.Ls
open Mp3Kernel.Descriptors (resolve AllOpen Lowest is_open table_setFile)
open Mp3Kernel.DirectoryRead (entry_name entry_name_le)
open Mp3Kernel.UserPointers (Machine do_read do_getargs ArgsLength)
open Mp3Kernel.Screen (NEWLINE)
open Mp3Kernel.Tty (Console)

section
-- `buf` of `main` is the name that `do_one_file` gets, and `search` its pattern
variable (p : Places) (dot could_not_read open_failed read_failed limit : Nat)

def grep_loop (read : Nat → Int → Machine → Option (Int × Machine)) (one_file : Machine → Option (Int × Machine)) :
    Nat → Machine → Option (Int × Machine)
  | 0, _ => none
  | fuel + 1, m =>
    (read p.fname 32 m).bind fun (cnt,m) =>
      if cnt = 0 then some (0,m)
      else if cnt = -1 then (ece391_fdputs 1 read_failed limit m).map fun m => (3,m)
      -- a directory
      else if m.mem p.fname = ascii '.' then grep_loop read one_file fuel m
      else
        (one_file { m with mem := Function.update m.mem (p.fname + cnt.toNat) 0 }).bind fun (ret,m) =>
          if ret ≠ 0 then some (3,m) else grep_loop read one_file fuel m

def main (file_sys : FileSys) (wait : Console → Int × List Byte × Console) (fuel : Nat) (m : Machine) :
    Option (Int × Machine) :=
  (do_getargs p.s BUFSIZE m).bind fun (ret,m) =>
    if ret ≠ 0 then (ece391_fdputs 1 could_not_read limit m).map fun m => (3,m) else
      (ece391_open file_sys dot limit m).bind fun (fd,m) =>
        if fd = -1 then (ece391_fdputs 1 open_failed limit m).map fun m => (2,m)
        else grep_loop p read_failed limit (do_read file_sys wait fd) (do_one_file p limit file_sys wait limit) fuel m

end

/-! ### What is printed -/

/-- The content of the file that a name opens; a device has none. -/
def content (file_sys : FileSys) (name : List Byte) : List Byte :=
  match resolve file_sys name with
  | some dentry =>
    if dentry.file_type = 2 then file_bytes file_sys dentry.inode_num 0 (file_sys.inodes dentry.inode_num).len else []
  | none => []

/-- The lines that are printed for a name. -/
def found (file_sys : FileSys) (pattern name : List Byte) : List Byte :=
  if name.head? = some (ascii '.') then []
  else ((content file_sys name).splitOn NEWLINE).flatMap (report name pattern)

/-- A name whose file is searched whole: a text of at most 1024 bytes, or a
    device. -/
structure Searchable (file_sys : FileSys) (name : List Byte) : Prop where
  opens : ∃ dentry, resolve file_sys name = some dentry ∧ (dentry.file_type = 0 ∨ dentry.file_type = 2 ∧
    dentry.inode_num < file_sys.num_inodes ∧ (file_sys.inodes dentry.inode_num).len ≤ BUFSIZE)
  plain : ∀ c ∈ content file_sys name, c ≠ 0

/-! ### One file -/

/-- Descriptor `fd` is open on the RTC. -/
structure OnRtc (fd : Int) (task : Task) : Prop where
  opened : is_open (task.files fd) = true
  fops : (task.files fd).fops = some .rtc_fops

variable {p : Places} {file_sys : FileSys} {fd : Int} {m : Machine} {name pattern : List Byte} {limit : Nat}

/-- The RTC has nothing to read. -/
theorem serves_rtc (wait : Console → Int × List Byte × Console) (descriptor : 2 ≤ fd ∧ fd ≤ 7) :
    Serves (do_read file_sys wait fd) (fun n => 0 < n ∧ n < 2147483648) (fun task _ rest => rest = [] ∧ OnRtc fd task) := by
  constructor
  rintro m ptr n _ running inside ⟨rfl,rtc⟩
  refine ⟨[],m.task,?_,Nat.zero_le _,by simp,⟨running.pid,running.mapped,running.table⟩,fun _ _ => ⟨List.drop_nil,rtc⟩⟩
  rw [do_read,if_pos (is_user_ptr_page running inside.1),if_neg (by omega),if_neg (by omega),if_pos rtc.opened,rtc.fops,
    Option.bind_some,UserPointers.Fops.read]
  have unchanged : storeBytes m.mem ptr [] = m.mem := by
    funext b
    exact storeBytes_outside (by simp; omega)
  rw [unchanged]
  simp

/-- The files that are open stay as they are, and the one that was opened beside
    them is free again. -/
theorem closed_beside {task task' : Task} {file : File} (lowest : Lowest task.files fd)
    (kept : ∀ g, g ≠ fd → task'.files g = task.files g) (closed : is_open file = false) :
    (∀ g, is_open (task.files g) = true → (task'.setFile fd file).files g = task.files g) ∧
      ¬ AllOpen (task'.setFile fd file).files := by
  constructor
  · intro g opened
    have other : g ≠ fd := by
      rintro rfl
      rw [lowest.2.2.1] at opened
      cases opened
    rw [setFile_other task' file other]
    exact kept g other
  · intro all
    have opened := all fd lowest.1 lowest.2.1
    rw [setFile_same,closed] at opened
    cases opened

variable {asks : Nat → Prop} {R : Task → Nat → List Byte → Prop}

/-- A file that is served is searched beside the ones that are open. -/
theorem served_beside {wait : Console → Int × List Byte × Console} {file : File} {text : List Byte}
    (serves : Serves (do_read file_sys wait fd) asks R) (asked : ∀ n, 0 < n → n ≤ BUFSIZE → asks n)
    (placed : Placed p name pattern m) (enough : Enough name pattern limit) (fits : BUFSIZE + 1 < limit)
    (lowest : Lowest m.task.files fd)
    (opens : ece391_open file_sys p.fname limit m = some (fd,{ m with task := m.task.setFile fd file }))
    (running : Running { m with task := m.task.setFile fd file }) (next : R (m.task.setFile fd file) BUFSIZE text)
    (plain : ∀ c ∈ text, c ≠ 0) (small : text.length ≤ BUFSIZE)
    (opened : ∀ {task n rest}, R task n rest → is_open (task.files fd) = true) :
    ∃ m', do_one_file p limit file_sys wait limit m = some (0,m') ∧ Placed p name pattern m' ∧
      m'.console = (print m ((text.splitOn NEWLINE).flatMap (report name pattern))).console ∧ m'.cur_ptree = m.cur_ptree ∧
      (∀ g, is_open (m.task.files g) = true → m'.task.files g = m.task.files g) ∧ ¬ AllOpen m'.task.files := by
  have kept := serves.keep (F := fun task => ∀ g ≠ fd, task.files g = m.task.files g)
    (fun answered kept g other => (do_read_others other answered).trans (kept g other))
  obtain ⟨m',task',returned,after,shows,tree,⟨-,others⟩,ends⟩ := do_one_file_serves kept asked placed enough opens running
    ⟨next,fun g other => setFile_other _ _ other⟩ plain small ⟨lowest.1,by have high := lowest.2.1; omega⟩
    (fun both => opened both.1) fits
  refine ⟨m',returned,after,shows,tree,?_⟩
  rw [ends]
  exact closed_beside lowest others (by dsimp only [is_open]; decide)

/-- One file, whatever kind it is. -/
theorem one_file_found (wait : Console → Int × List Byte × Console) (wellFormed : WellFormed file_sys)
    (placed : Placed p name pattern m) (enough : Enough name pattern limit) (fits : BUFSIZE + 1 < limit)
    (searchable : Searchable file_sys name) (visible : name.head? ≠ some (ascii '.')) (free : ¬ AllOpen m.task.files) :
    ∃ m', do_one_file p limit file_sys wait limit m = some (0,m') ∧ Placed p name pattern m' ∧
      m'.console = (print m (found file_sys pattern name)).console ∧ m'.cur_ptree = m.cur_ptree ∧
      (∀ g, is_open (m.task.files g) = true → m'.task.files g = m.task.files g) ∧ ¬ AllOpen m'.task.files := by
  obtain ⟨dentry,resolved,type⟩ := searchable.opens
  have plain := searchable.plain
  rw [found,if_neg visible]
  have asked (n : Nat) (low : 0 < n) (high : n ≤ BUFSIZE) : 0 < n ∧ n < 2147483648 :=
    ⟨low,by dsimp only [BUFSIZE] at high; omega⟩
  rcases type with rtc | ⟨regular,known,small⟩
  · obtain ⟨fd,lowest,opens,running⟩ := open_done placed.running placed.fname.text resolved (by omega) free enough.name
    have nothing : content file_sys name = [] := by
      rw [content,resolved]
      exact if_neg (by omega)
    have device : OnRtc fd (m.task.setFile fd (Descriptors.opened file_sys dentry)) := by
      refine ⟨?_,?_⟩
      · rw [setFile_same]
        exact Descriptors.is_open_opened dentry
      · rw [setFile_same,Descriptors.opened,rtc]
        rfl
    rw [nothing]
    exact served_beside (serves_rtc wait ⟨lowest.1,by have high := lowest.2.1; omega⟩) asked placed enough fits lowest opens
      running ⟨rfl,device⟩ (by simp) (Nat.zero_le _) (fun once => once.2.opened)
  · obtain ⟨fd,lowest,opens,running,reads,start⟩ := open_reads placed.running placed.fname.text resolved regular known free
      enough.name
    have text : content file_sys name = file_bytes file_sys dentry.inode_num 0 (file_sys.inodes dentry.inode_num).len := by
      rw [content,resolved]
      exact if_pos regular
    rw [text] at plain ⊢
    exact served_beside (serves_at_once wait wellFormed small) asked placed enough fits lowest opens running
      ⟨by decide,by decide,reads,.inl ⟨start,small,rfl⟩⟩ plain (by rw [file_bytes_length]; exact small)
      (fun once => once.2.2.1.opened)

/-! ### Where everything lies -/

/-- The three buffers of the program, in its page and apart from each other. -/
structure Room (p : Places) : Prop where
  search : InPage p.s BUFSIZE
  name : InPage p.fname 33
  buffer : InPage p.data (BUFSIZE + 1)
  search_name : p.s + BUFSIZE ≤ p.fname ∨ p.fname + 33 ≤ p.s
  search_buffer : p.s + BUFSIZE ≤ p.data ∨ p.data + (BUFSIZE + 1) ≤ p.s
  name_buffer : p.fname + 33 ≤ p.data ∨ p.data + (BUFSIZE + 1) ≤ p.fname

/-- A string of the program, apart from its buffers. -/
structure Constant (p : Places) (mem : Mem) (a : Nat) (t : List Byte) : Prop where
  text : Text mem a t
  page : InPage a t.length
  search : a + t.length < p.s ∨ p.s + BUFSIZE ≤ a
  name : a + t.length < p.fname ∨ p.fname + 33 ≤ a
  buffer : a + t.length < p.data ∨ p.data + (BUFSIZE + 1) ≤ a

/-- Between two files: the pattern and the strings are in their places. -/
structure Ready (p : Places) (pattern : List Byte) (m : Machine) : Prop where
  running : Running m
  search : Text m.mem p.s pattern
  short : pattern.length < BUFSIZE
  colon : Constant p m.mem p.colon [58]
  newline : Constant p m.mem p.newline [NEWLINE]

theorem Constant.congr {mem mem' : Mem} {a : Nat} {t : List Byte} (constant : Constant p mem a t)
    (same : ∀ b, a ≤ b → b ≤ a + t.length → mem' b = mem b) : Constant p mem' a t :=
  { constant with text := constant.text.congr same }

/-- A name that is read leaves the rest in its place. -/
theorem Ready.named {task : Task} {stored : List Byte} (ready : Ready p pattern m) (room : Room p)
    (fits : stored.length ≤ 33) (running : Running { m with mem := storeBytes m.mem p.fname stored, task := task }) :
    Ready p pattern { m with mem := storeBytes m.mem p.fname stored, task := task } := by
  have outside (b : Nat) (apart : b < p.fname ∨ p.fname + 33 ≤ b) : storeBytes m.mem p.fname stored b = m.mem b :=
    storeBytes_outside (by omega)
  have short := ready.short
  refine ⟨running,ready.search.congr ?_,short,ready.colon.congr ?_,ready.newline.congr ?_⟩
  · intro b low high
    have apart := room.search_name
    exact outside b (by omega)
  · intro b low high
    have apart := ready.colon.name
    exact outside b (by omega)
  · intro b low high
    have apart := ready.newline.name
    exact outside b (by omega)

/-- Then `do_one_file` has what it needs, -/
theorem Ready.placed (ready : Ready p pattern m) (room : Room p) (text : Text m.mem p.fname name)
    (fits : name.length ≤ 32) : Placed p name pattern m := by
  have short := ready.short
  have search := room.search
  have page := room.name
  refine ⟨ready.running,room.buffer,⟨ready.search,⟨search.1,?_⟩,?_⟩,⟨text,⟨page.1,?_⟩,?_⟩,
    ⟨ready.colon.text,ready.colon.page,ready.colon.buffer⟩,⟨ready.newline.text,ready.newline.page,ready.newline.buffer⟩⟩
  · have high := search.2
    omega
  · have apart := room.search_buffer
    omega
  · have high := page.2
    omega
  · have apart := room.name_buffer
    omega

/-- and leaves it. -/
theorem Ready.after {m' : Machine} (ready : Ready p pattern m) (placed : Placed p name pattern m') : Ready p pattern m' :=
  ⟨placed.running,placed.s.text,ready.short,{ ready.colon with text := placed.colon.text },
    { ready.newline with text := placed.newline.text }⟩

/-! ### The directory -/

theorem allOpen_moved {task : Task} : AllOpen (moved fd task).files ↔ AllOpen task.files := by
  have same (g : Int) : is_open ((moved fd task).files g) = is_open (task.files g) := by
    by_cases here : g = fd
    · rw [here,moved,setFile_same]
      rfl
    · rw [moved,setFile_other _ _ here]
  simp only [AllOpen,same]

theorem entry_name_plain {i : Nat} : ∀ c ∈ entry_name file_sys i, c ≠ 0 := by
  intro c inside
  simpa using List.mem_takeWhile_imp inside

theorem stored_head (mem : Mem) (a : Nat) (c : Byte) {s : List Byte} (some_left : s ≠ []) :
    storeBytes mem a s a = c ↔ s.head? = some c := by
  have positive := List.length_pos_iff.mpr some_left
  have bytes := bytes_storeBytes mem a s 0 positive
  rw [Nat.add_zero] at bytes
  rw [bytes,List.head?_eq_getElem?,List.getElem?_eq_getElem positive,Option.some.injEq]

/-- The loop searches the files of the names that are left. -/
theorem grep_loop_prints (wait : Console → Int × List Byte × Console) (read_failed : Nat) (wellFormed : WellFormed file_sys)
    (room : Room p) (small : file_sys.num_inodes < DENTRY_NUM) (fits : BUFSIZE + 1 < limit) (fuel : Nat)
    {m : Machine} {n : Nat} (ready : Ready p pattern m) (lists : Lists fd m.task) (free : ¬ AllOpen m.task.files)
    (left : (m.task.files fd).offset + n = file_sys.num_inodes + 1)
    (searchable : ∀ name ∈ names file_sys (m.task.files fd).offset n, name.head? ≠ some (ascii '.') →
      Searchable file_sys name)
    (enough : n < fuel) :
    ∃ m', grep_loop p read_failed limit (do_read file_sys wait fd) (do_one_file p limit file_sys wait limit) fuel m =
        some (0,m') ∧
      m'.console = (print m ((names file_sys (m.task.files fd).offset n).flatMap (found file_sys pattern))).console := by
  induction fuel generalizing m n with
  | zero => omega
  | succ fuel ih =>
    rw [grep_loop,do_read_name ready.running lists room.name]
    cases n with
    | zero =>
      rw [if_pos (by omega),Option.bind_some]
      exact ⟨_,if_pos rfl,rfl⟩
    | succ n =>
      rw [if_neg (by omega),Option.bind_some]
      rw [names_cons] at searchable ⊢
      dsimp only
      by_cases unnamed : entry_name file_sys (m.task.files fd).offset = []
      · rw [if_pos unnamed,if_pos (by rw [unnamed]; rfl)]
        exact ⟨_,rfl,rfl⟩
      rw [if_neg unnamed] at searchable ⊢
      have positive := List.length_pos_iff.mpr unnamed
      have short : (entry_name file_sys (m.task.files fd).offset).length ≤ 32 := entry_name_le _
      rw [if_neg (by omega),if_neg (by omega)]
      obtain ⟨lists',offset⟩ := lists_moved lists (show (m.task.files fd).offset ≤ file_sys.num_inodes by omega) small
      have free' : ¬ AllOpen (moved fd m.task).files := allOpen_moved.not.mpr free
      have first := stored_head m.mem p.fname (ascii '.') unnamed
      by_cases dot : (entry_name file_sys (m.task.files fd).offset).head? = some (ascii '.')
      · rw [if_pos (first.mpr dot)]
        have ready' := ready.named room (by omega) (running_moved ready.running lists
          (storeBytes m.mem p.fname (entry_name file_sys (m.task.files fd).offset)))
        obtain ⟨m',returned,shows⟩ := ih (n := n) ready' lists' free' (by dsimp only; omega)
          (by
            intro name inside visible
            refine searchable name (List.mem_cons_of_mem _ ?_) visible
            rw [← offset]
            exact inside)
          (by omega)
        refine ⟨m',returned,shows.trans ?_⟩
        rw [List.flatMap_cons,found,if_pos dot,List.nil_append,← offset]
        rfl
      · rw [if_neg (mt first.mp dot),Int.toNat_natCast]
        have ready' := ready.named room (by rw [List.length_append,List.length_singleton]; omega)
          (running_moved ready.running lists (storeBytes m.mem p.fname (entry_name file_sys (m.task.files fd).offset ++ [0])))
        have bytes := bytes_append.mp (bytes_storeBytes m.mem p.fname (entry_name file_sys (m.task.files fd).offset ++ [0]))
        have placed := ready'.placed room ⟨bytes.1,(bytes_cons.mp bytes.2).1,entry_name_plain⟩ short
        have line := update_storeBytes m.mem p.fname (entry_name file_sys (m.task.files fd).offset) 0
        have room_left := ready.short
        obtain ⟨m₁,searched,after,shows₁,tree,kept,free₁⟩ := one_file_found wait wellFormed placed
          ⟨by omega,by dsimp only [BUFSIZE] at fits; omega,by omega⟩ fits (searchable _ List.mem_cons_self dot) dot free'
        rw [line,searched,Option.bind_some]
        dsimp only
        rw [if_neg (by decide)]
        have same := kept fd lists'.opened
        dsimp only at same
        obtain ⟨m',returned,shows⟩ := ih (n := n) (ready.after after)
          ⟨lists'.descriptor,by rw [same]; exact lists'.opened,by rw [same]; exact lists'.fops⟩ free₁ (by rw [same]; omega)
          (by
            intro name inside visible
            refine searchable name (List.mem_cons_of_mem _ ?_) visible
            rw [same,offset] at inside
            exact inside)
          (by omega)
        refine ⟨m',returned,shows.trans ?_⟩
        rw [same,offset,List.flatMap_cons]
        simp only [print,shows₁,tree,List.foldl_append]

/-! ### The program -/

/-- One descriptor for the directory and one for the files. -/
def TwoFree (files : Int → File) : Prop :=
  ∃ f g, f ≠ g ∧ (2 ≤ f ∧ f < 8) ∧ (2 ≤ g ∧ g < 8) ∧ is_open (files f) = false ∧ is_open (files g) = false

theorem TwoFree.not_allOpen {files : Int → File} (two : TwoFree files) : ¬ AllOpen files := by
  obtain ⟨f,_,-,⟨low,high⟩,-,closed,-⟩ := two
  intro all
  rw [all f low high] at closed
  cases closed

theorem TwoFree.opened {task : Task} (two : TwoFree task.files) (fd : Int) (file : File) :
    ¬ AllOpen (task.setFile fd file).files := by
  obtain ⟨f,g,apart,inside_f,inside_g,closed_f,closed_g⟩ := two
  intro all
  by_cases here : f = fd
  · have opened := all g inside_g.1 inside_g.2
    rw [setFile_other _ _ (fun same => apart (here.trans same.symm)),closed_g] at opened
    cases opened
  · have opened := all f inside_f.1 inside_f.2
    rw [setFile_other _ _ here,closed_f] at opened
    cases opened

/-- `grep` prints the lines with the pattern of every file in the directory,
    each behind the name of its file. -/
theorem grep_prints (wait : Console → Int × List Byte × Console) {dot could_not_read open_failed read_failed n : Nat}
    (wellFormed : WellFormed file_sys) (running : Running m) (room : Room p) (length : ArgsLength m.task.args n)
    (short : n < 1023) (name : Constant p m.mem dot [ascii '.']) (colon : Constant p m.mem p.colon [58])
    (newline : Constant p m.mem p.newline [NEWLINE]) (directory : (file_sys.dentries 0).file_type = 1)
    (small : file_sys.num_inodes < DENTRY_NUM) (two : TwoFree m.task.files)
    (searchable : ∀ name ∈ listing file_sys, name.head? ≠ some (ascii '.') → Searchable file_sys name)
    (fits : BUFSIZE + 1 < limit) {fuel : Nat} (enough : file_sys.num_inodes + 1 < fuel) :
    ∃ m', main p dot could_not_read open_failed read_failed limit file_sys wait fuel m = some (0,m') ∧
      m'.console = (print m ((listing file_sys).flatMap
        (found file_sys ((List.range n).map m.task.args)))).console := by
  obtain ⟨got,search⟩ := Cat.getargs_text running room.search length short
  generalize args_eq : (List.range n).map m.task.args = args at *
  have args_length : args.length = n := by rw [← args_eq,List.length_map,List.length_range]
  have outside (b : Nat) (apart : b < p.s ∨ p.s + BUFSIZE ≤ b) : storeBytes m.mem p.s (args ++ [0]) b = m.mem b := by
    refine storeBytes_outside ?_
    rw [List.length_append,List.length_singleton,args_length]
    dsimp only [BUFSIZE] at apart
    omega
  have kept {a : Nat} {t : List Byte} (constant : Constant p m.mem a t) :
      Constant p (storeBytes m.mem p.s (args ++ [0])) a t := by
    refine constant.congr ?_
    intro b low high
    have apart := constant.search
    exact outside b (by omega)
  have started : Running { m with mem := storeBytes m.mem p.s (args ++ [0]) } := ⟨running.pid,running.mapped,running.table⟩
  obtain ⟨fd,file,lowest,opens,after,lists,start⟩ := open_lists started (kept name).text directory two.not_allOpen
    (show 1 < limit by dsimp only [BUFSIZE] at fits; omega)
  have low := lowest.1
  have ready : Ready p args { m with mem := storeBytes m.mem p.s (args ++ [0]), task := m.task.setFile fd file } :=
    ⟨after,search,by rw [args_length]; dsimp only [BUFSIZE]; omega,kept colon,kept newline⟩
  dsimp only at start
  obtain ⟨m',returned,shows⟩ := grep_loop_prints wait read_failed wellFormed room small fits fuel ready lists
    (two.opened fd file) (n := file_sys.num_inodes + 1) (by dsimp only; omega)
    (by
      intro name inside visible
      refine searchable name ?_ visible
      dsimp only at inside
      rw [start] at inside
      exact inside)
    enough
  refine ⟨m',?_,?_⟩
  · have got : do_getargs p.s BUFSIZE m = _ := got
    rw [main,got,Option.bind_some]
    dsimp only
    rw [if_neg (by decide),opens,Option.bind_some]
    dsimp only
    rw [if_neg (by omega)]
    exact returned
  · rw [shows,listing]
    dsimp only
    rw [start]
    rfl

/-- The directory and a file `f` with the text `hi`, -/
def notes : FileSys where
  num_dentries := 2
  num_inodes := 1
  num_blocks := 1
  dentries := fun i =>
    { file_name := fun j => if j ≠ 0 then 0 else if i = 0 then 46 else if i = 1 then 102 else 0
      file_type := if i = 0 then 1 else 2
      inode_num := 0 }
  inodes := fun _ => { len := 3, dblocks := fun _ => 0 }
  data := fun _ i => [104,105,10].getD i 0

/-- the places of `do_one_file`, with room for the name and the pattern, -/
def room_places : Places := { Grep.places with s := 0x8002000, fname := 0x8000040 }

/-- and a task that looks for `h`. -/
def searcher : Machine :=
  { Grep.machine with
    task := { Descriptors.new_task with args := fun i => if i = 0 then 104 else 0 }
    mem := fun a => if a = 0x8000010 then 46 else if a = 0x8000020 then 58 else if a = 0x8000030 then NEWLINE else 0 }

theorem room_places_apart : Room room_places where
  search := by unfold InPage; decide
  name := by unfold InPage; decide
  buffer := by unfold InPage; decide
  search_name := by decide
  search_buffer := by decide
  name_buffer := by decide

theorem grep_prints_notes :
    ∃ m', main room_places 0x8000010 0 0 0 2000 notes (fun c => (0,[],c)) 3 searcher = some (0,m') ∧
      m'.console = (print searcher [102,58,104,105,10]).console := by
  have length : ArgsLength searcher.task.args 1 := by
    refine ⟨rfl,?_⟩
    intro i below
    obtain rfl : i = 0 := by omega
    decide
  have text {a : Nat} {c : Byte} (first : searcher.mem a = c) (next : searcher.mem (a + 1) = 0) (nonzero : c ≠ 0)
      (low : EXECUTION_ADDR ≤ a) (high : a + 1 < room_places.fname) : Constant room_places searcher.mem a [c] := by
    dsimp only [room_places] at high
    refine ⟨⟨bytes_cons.mpr ⟨first,bytes_nil⟩,next,by simpa using nonzero⟩,⟨low,?_⟩,.inl ?_,.inl high,.inl ?_⟩
    all_goals
      dsimp only [room_places,Grep.places,EXECUTION_ADDR,SIZE_4MB_PAGE,List.length_singleton]
      omega
  have running : Running searcher := ⟨by decide,fun _ _ _ => rfl,(Descriptors.sound_init_files FileRead.reader.files).table⟩
  have wellFormed : WellFormed notes := ⟨fun _ _ _ _ => Nat.zero_lt_one,fun _ _ => by dsimp only [notes]; decide⟩
  have searchable : ∀ name ∈ listing notes, name.head? ≠ some (ascii '.') → Searchable notes name := by
    intro name inside visible
    obtain rfl : name = [102] := by
      have two_names : listing notes = [[46],[102]] := by decide
      rw [two_names] at inside
      rcases List.mem_pair.mp inside with rfl | rfl
      · exact absurd rfl visible
      · rfl
    exact ⟨⟨copy_dentry (notes.dentries 1) uninitialized,rfl,.inr ⟨rfl,by decide,by decide⟩⟩,by decide⟩
  exact grep_prints (fun c => (0,[],c)) wellFormed running room_places_apart length (by decide)
    (text rfl rfl (by decide) (by decide) (by decide)) (text rfl rfl (by decide) (by decide) (by decide))
    (text rfl rfl (by decide) (by decide) (by decide)) rfl (by decide)
    ⟨2,3,by decide,by decide,by decide,by decide,by decide⟩ searchable (by decide) (by decide)

end Mp3Kernel.GrepDirectory

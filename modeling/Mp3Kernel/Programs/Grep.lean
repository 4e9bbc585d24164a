import Mp3Kernel.Programs.Cat

/-!
The program grep: `do_one_file` keeps what it has read of a file in a buffer of
1024 bytes and a terminator, searches the lines in it, and moves a line that is
not complete to the front before it reads on. A line that fills the buffer is
searched in pieces. The byte behind the buffer is tested before anything is
stored there.
-/
namespace Mp3Kernel.Grep
open Mp3Kernel.Memory Mp3Kernel.CString Mp3Kernel.Filesys Mp3Kernel.Tasks Mp3Kernel.UserLibrary Mp3Kernel.Reading
open Mp3Kernel.UserPointers (Machine do_read)
open Mp3Kernel.Screen (NEWLINE)
open Mp3Kernel.Tty (Console)

abbrev BUFSIZE : Nat := 1024

/-- Where the arguments, the buffer and the messages of `do_one_file` lie. -/
structure Places where
  s : Nat
  fname : Nat
  data : Nat
  colon : Nat
  newline : Nat
  open_failed : Nat
  read_failed : Nat
  close_failed : Nat

section
variable (p : Places)

/-- The end of the line at `line_end`, with `n` bytes left in the buffer. -/
def find_end (m : Mem) (line_end : Nat) : Nat → Nat
  | 0 => line_end
  | n + 1 => if m (p.data + line_end) ≠ NEWLINE then find_end m (line_end + 1) n else line_end

/-- The search from `check` on, with `n` bytes left in the line. -/
def search_line (m : Mem) (s_len check : Nat) : Nat → Bool
  | 0 => false
  | n + 1 =>
    if m p.s = m (p.data + check) ∧ ece391_strncmp m (p.data + check) p.s s_len = 0 then true
    else search_line m s_len (check + 1) n

-- the fuel of the scans and of the loop over the buffer
variable (limit : Nat)

def print_line (line_start : Nat) (m : Machine) : Option Machine :=
  (ece391_fdputs 1 p.fname limit m).bind fun m =>
    (ece391_fdputs 1 p.colon limit m).bind fun m =>
      (ece391_fdputs 1 (p.data + line_start) limit m).bind fun m => ece391_fdputs 1 p.newline limit m

def search_lines (s_len : Nat) (cnt : Int) (last line_start : Nat) (m : Machine) : Nat → Option (Nat × Machine)
  | 0 => none
  | fuel + 1 =>
    let line_end := find_end p m.mem line_start (last - line_start)
    let terminated := { m with mem := Function.update m.mem (p.data + line_end) 0 }
    if m.mem (p.data + line_end) ≠ NEWLINE ∧ cnt ≠ 0 ∧ line_start ≠ 0 then
      (ece391_strcpy p.data (p.data + line_start) terminated.mem limit).map fun mem => (last - line_start,{ m with mem := mem })
    else
      let found := search_line p terminated.mem s_len line_start (line_end - line_start)
      (if found then print_line p limit line_start terminated else some terminated).bind fun m =>
        if last ≤ line_end + 1 then some (0,m) else search_lines s_len cnt last (line_end + 1) m fuel

def read_loop (read : Nat → Int → Machine → Option (Int × Machine)) (s_len last : Nat) (m : Machine) :
    Nat → Option (Int × Machine)
  | 0 => none
  | fuel + 1 =>
    (read (p.data + last) ((BUFSIZE - last : Nat) : Int) m).bind fun (cnt,m) =>
      if cnt = -1 then (ece391_fdputs 1 p.read_failed limit m).map fun m => (-1,m) else
        (search_lines p limit s_len cnt (last + cnt.toNat) 0 m limit).bind fun (last,m) =>
          if cnt = 0 then some (0,m) else read_loop read s_len last m fuel

def do_one_file (file_sys : FileSys) (wait : Console → Int × List Byte × Console) (fuel : Nat) (m : Machine) :
    Option (Int × Machine) :=
  (ece391_strlen m.mem p.s limit).bind fun s_len =>
    (ece391_open file_sys p.fname limit m).bind fun (fd,m) =>
      if fd = -1 then (ece391_fdputs 1 p.open_failed limit m).map fun m => (-1,m) else
        (read_loop p limit (do_read file_sys wait fd) s_len 0 m fuel).bind fun (ret,m) =>
          if ret = -1 then some (-1,m) else
            let (closed,m) := ece391_close fd m
            if closed = -1 then (ece391_fdputs 1 p.close_failed limit m).map fun m => (-1,m) else some (0,m)

end

/-! ### What is printed -/

/-- The pieces in which a text is searched, the first one begun with `piece`: a
    piece ends before a line break and after 1024 characters. -/
def pieces (piece : List Byte) : List Byte → List (List Byte)
  | [] => [piece]
  | c :: text =>
    if c = NEWLINE then piece :: pieces [] text
    else if piece.length + 1 = BUFSIZE then (piece ++ [c]) :: pieces [] text
    else pieces (piece ++ [c]) text

/-- The line printed for a piece. -/
def report (name pattern piece : List Byte) : List Byte :=
  if pattern ≠ [] ∧ pattern <:+: piece then name ++ [58] ++ piece ++ [NEWLINE] else []

def output (name pattern text : List Byte) : List Byte := (pieces [] text).flatMap (report name pattern)

variable {name pattern text line : List Byte}

@[simp] theorem report_nil : report name pattern [] = [] := by
  rw [report,if_neg]
  rintro ⟨some_,inside⟩
  exact some_ (List.infix_nil.mp inside)

@[simp] theorem output_nil : output name pattern [] = [] := by simp [output,pieces]

/-- Characters of one piece. -/
theorem pieces_append (piece text : List Byte) (unbroken : NEWLINE ∉ line) (short : piece.length + line.length < BUFSIZE) :
    pieces piece (line ++ text) = pieces (piece ++ line) text := by
  induction line generalizing piece with
  | nil => rw [List.nil_append,List.append_nil]
  | cons c line ih =>
    have other : c ≠ NEWLINE := fun same => unbroken (same ▸ List.mem_cons_self)
    rw [List.length_cons] at short
    rw [List.cons_append,pieces,if_neg other,if_neg (by omega),
      ih _ (fun inside => unbroken (List.mem_cons_of_mem c inside)) (by rw [List.length_append,List.length_singleton]; omega),
      List.append_assoc,List.singleton_append]

section
variable (name pattern text : List Byte)

/-- A line with its break, -/
theorem output_line (unbroken : NEWLINE ∉ line) (short : line.length < BUFSIZE) :
    output name pattern (line ++ NEWLINE :: text) = report name pattern line ++ output name pattern text := by
  rw [output,pieces_append _ _ unbroken (by simpa using short),List.nil_append,pieces,if_pos rfl,List.flatMap_cons,output]

/-- a full buffer of one line, -/
theorem output_full (unbroken : NEWLINE ∉ line) (full : line.length = BUFSIZE) :
    output name pattern (line ++ text) = report name pattern line ++ output name pattern text := by
  obtain ⟨front,last,rfl⟩ : ∃ front last, line = front ++ [last] :=
    ⟨line.dropLast,line.getLast (fun empty => by rw [empty] at full; cases full),(List.dropLast_append_getLast _).symm⟩
  rw [List.length_append,List.length_singleton] at full
  have other : last ≠ NEWLINE := fun same => unbroken (List.mem_append_right _ (same ▸ List.mem_singleton_self _))
  have front_unbroken : NEWLINE ∉ front := fun inside => unbroken (List.mem_append_left _ inside)
  rw [List.append_assoc,output,pieces_append _ _ front_unbroken (by rw [List.length_nil]; omega),List.nil_append,
    List.singleton_append,pieces,if_neg other,if_pos full,List.flatMap_cons,output]

/-- and the end of the text. -/
theorem output_last (unbroken : NEWLINE ∉ line) (short : line.length ≤ BUFSIZE) :
    output name pattern line = report name pattern line := by
  by_cases full : line.length = BUFSIZE
  · have split := output_full name pattern [] unbroken full
    rwa [List.append_nil,output_nil,List.append_nil] at split
  · have whole := pieces_append [] [] unbroken (by rw [List.length_nil]; omega)
    rw [List.append_nil,List.nil_append,pieces] at whole
    rw [output,whole,List.flatMap_cons,List.flatMap_nil,List.append_nil]

theorem line_le {a : Byte} (inside : line ∈ text.splitOn a) : line.length ≤ text.length := by
  induction text generalizing line with
  | nil =>
    obtain rfl := List.mem_singleton.mp inside
    exact le_rfl
  | cons c text ih =>
    rw [List.splitOn_cons_eq_if_modifyHead] at inside
    split at inside
    · rcases List.mem_cons.mp inside with rfl | later
      · exact Nat.zero_le _
      · exact (ih later).trans (Nat.le_succ _)
    · cases lines : text.splitOn a with
      | nil => exact absurd lines (List.splitOn_ne_nil a text)
      | cons first others =>
        rw [lines,List.modifyHead_cons] at inside
        rcases List.mem_cons.mp inside with rfl | later
        · exact Nat.succ_le_succ (ih (lines ▸ List.mem_cons_self))
        · exact (ih (lines ▸ List.mem_cons_of_mem _ later)).trans (Nat.le_succ _)

variable {text} in
/-- Where no line is longer than the buffer, the pieces are the lines. -/
theorem output_lines (short : ∀ line ∈ text.splitOn NEWLINE, line.length ≤ BUFSIZE) :
    output name pattern text = (text.splitOn NEWLINE).flatMap (report name pattern) := by
  induction length : text.length using Nat.strong_induction_on generalizing text with
  | _ n ih =>
    by_cases broken : NEWLINE ∈ text
    · obtain ⟨line,more,rfl,unbroken⟩ := List.eq_append_cons_of_mem broken
      rw [List.splitOn_append_cons_self_of_not_mem unbroken] at short ⊢
      have room := short line List.mem_cons_self
      have rest := ih more.length (by rw [← length,List.length_append,List.length_cons]; omega)
        (fun other inside => short other (List.mem_cons_of_mem line inside)) rfl
      rw [List.flatMap_cons,← rest]
      by_cases full : line.length = BUFSIZE
      · -- the break is then a piece of its own, an empty one
        have nothing := output_line name pattern more (List.not_mem_nil (a := NEWLINE)) (by decide)
        rw [List.nil_append,report_nil,List.nil_append] at nothing
        rw [output_full name pattern _ unbroken full,nothing]
      · exact output_line name pattern more unbroken (by omega)
    · rw [List.splitOn_eq_singleton broken] at short ⊢
      rw [output_last name pattern broken (short text List.mem_cons_self)]
      simp

end

/-! ### One line -/

section
variable {p : Places} {mem : Mem}

theorem find_end_eq {line_start n : Nat} (bytes : Bytes mem (p.data + line_start) line) (unbroken : NEWLINE ∉ line)
    (stop : n = line.length ∨ line.length < n ∧ mem (p.data + line_start + line.length) = NEWLINE) :
    find_end p mem line_start n = line_start + line.length := by
  induction line generalizing line_start n with
  | nil =>
    rcases stop with rfl | ⟨more,stop⟩
    · rfl
    · obtain ⟨n,rfl⟩ : ∃ rest, n = rest + 1 := ⟨n - 1,by rw [List.length_nil] at more; omega⟩
      rw [List.length_nil,Nat.add_zero] at stop
      rw [find_end,if_neg (not_not.mpr stop)]
      rfl
  | cons c line ih =>
    obtain ⟨first,rest⟩ := bytes_cons.mp bytes
    rw [List.length_cons] at stop
    obtain ⟨n,rfl⟩ : ∃ rest, n = rest + 1 := ⟨n - 1,by omega⟩
    have other : mem (p.data + line_start) ≠ NEWLINE := fun same => unbroken (same ▸ first ▸ List.mem_cons_self)
    rw [Nat.add_assoc] at rest
    rw [find_end,if_pos other,ih rest (fun inside => unbroken (List.mem_cons_of_mem c inside)),List.length_cons]
    · omega
    · rcases stop with last | ⟨more,stop⟩
      · exact .inl (by omega)
      · refine .inr ⟨by omega,?_⟩
        rwa [show p.data + (line_start + 1) + line.length = p.data + line_start + (line.length + 1) from by omega]

/-- The search finds the pattern wherever it is in the line. -/
theorem search_line_iff {check : Nat} (s : Text mem p.s pattern) (text : Text mem (p.data + check) line) :
    search_line p mem pattern.length check line.length = true ↔ pattern ≠ [] ∧ pattern <:+: line := by
  induction line generalizing check with
  | nil =>
    refine iff_of_false (by rw [List.length_nil,search_line]; exact Bool.false_ne_true) ?_
    rintro ⟨some_,inside⟩
    exact some_ (List.infix_nil.mp inside)
  | cons c line ih =>
    have later := ih (show Text mem (p.data + (check + 1)) line from by rw [← Nat.add_assoc]; exact text.tail)
    have here : mem p.s = mem (p.data + check) ∧
        ece391_strncmp mem (p.data + check) p.s pattern.length = 0 ↔ pattern ≠ [] ∧ pattern <+: c :: line := by
      rw [strncmp_zero_iff s,text.prefix_iff s.plain]
      cases pattern with
      | nil =>
        refine iff_of_false ?_ (fun both => both.1 rfl)
        rintro ⟨same,-⟩
        have zero := s.terminator
        rw [List.length_nil,Nat.add_zero] at zero
        exact text.head.2 (text.head.1.symm.trans (same.symm.trans zero))
      | cons d pattern =>
        refine ⟨fun both => ⟨List.cons_ne_nil _ _,both.2⟩,?_⟩
        rintro ⟨-,starts⟩
        obtain rfl := (List.cons_prefix_cons.mp starts).1
        exact ⟨s.head.1.trans text.head.1.symm,starts⟩
    rw [List.length_cons,search_line,List.infix_cons_iff]
    by_cases found : pattern ≠ [] ∧ pattern <+: c :: line
    · rw [if_pos (here.mpr found)]
      exact iff_of_true rfl ⟨found.1,.inl found.2⟩
    · rw [if_neg (fun equal => found (here.mp equal)),later]
      constructor
      · exact fun both => ⟨both.1,.inr both.2⟩
      · rintro ⟨some_,starts | inside⟩
        · exact absurd ⟨some_,starts⟩ found
        · exact ⟨some_,inside⟩

end

/-- A string in the program's page, apart from the buffer. -/
structure Apart (p : Places) (mem : Mem) (a : Nat) (t : List Byte) : Prop where
  text : Text mem a t
  page : InPage a t.length
  apart : a + t.length < p.data ∨ p.data + (BUFSIZE + 1) ≤ a

/-- Where everything lies that `do_one_file` reads and prints. -/
structure Placed (p : Places) (name pattern : List Byte) (m : Machine) : Prop where
  running : Running m
  buffer : InPage p.data (BUFSIZE + 1)
  s : Apart p m.mem p.s pattern
  fname : Apart p m.mem p.fname name
  colon : Apart p m.mem p.colon [58]
  newline : Apart p m.mem p.newline [NEWLINE]

variable {p : Places} {m : Machine}

theorem Apart.congr {mem mem' : Mem} {a : Nat} {t : List Byte} (apart : Apart p mem a t)
    (same : ∀ b, b < p.data ∨ p.data + (BUFSIZE + 1) ≤ b → mem' b = mem b) : Apart p mem' a t where
  text := apart.text.congr (fun b low high => same b (by have away := apart.apart; omega))
  page := apart.page
  apart := apart.apart

/-- Stores into the buffer leave it there. -/
theorem Placed.congr {m' : Machine} (placed : Placed p name pattern m) (running : Running m')
    (same : ∀ b, b < p.data ∨ p.data + (BUFSIZE + 1) ≤ b → m'.mem b = m.mem b) : Placed p name pattern m' :=
  ⟨running,placed.buffer,placed.s.congr same,placed.fname.congr same,placed.colon.congr same,placed.newline.congr same⟩

/-- The scans have the fuel they need. -/
structure Enough (name pattern : List Byte) (limit : Nat) : Prop where
  buffer : BUFSIZE < limit
  name : name.length < limit
  pattern : pattern.length < limit

variable {limit : Nat}

theorem print_line_eq (placed : Placed p name pattern m) (enough : Enough name pattern limit) {line_start : Nat}
    (text : Text m.mem (p.data + line_start) line) (within : line_start + line.length ≤ BUFSIZE) :
    print_line p limit line_start m = some (print m (name ++ [58] ++ line ++ [NEWLINE])) := by
  have buffer := placed.buffer
  have room := enough.buffer
  have page : InPage (p.data + line_start) line.length := ⟨by have low := buffer.1; omega,by have high := buffer.2; omega⟩
  have one : 1 < limit := by dsimp only [BUFSIZE] at room; omega
  have first := fdputs_prints placed.running placed.fname.page placed.fname.text enough.name
  have second := fdputs_prints (placed.running.print name) placed.colon.page placed.colon.text one
  have third := fdputs_prints ((placed.running.print name).print [58]) page text (show line.length < limit from by omega)
  have last := fdputs_prints (((placed.running.print name).print [58]).print line) placed.newline.page placed.newline.text one
  rw [print_line,first,Option.bind_some,second,Option.bind_some,third,Option.bind_some,last]
  simp only [print_print,List.append_assoc]

/-- A line that is found is printed. -/
theorem line_searched (placed : Placed p name pattern m) (enough : Enough name pattern limit) {line_start : Nat}
    (text : Text m.mem (p.data + line_start) line) (within : line_start + line.length ≤ BUFSIZE) :
    (if search_line p m.mem pattern.length line_start line.length then print_line p limit line_start m else some m) =
      some (print m (report name pattern line)) := by
  have found := search_line_iff placed.s.text text
  rw [report]
  by_cases inside : pattern ≠ [] ∧ pattern <:+: line
  · rw [if_pos (found.mpr inside),if_pos inside,print_line_eq placed enough text within]
  · rw [if_neg (fun equal => inside (found.mp equal)),if_neg inside,print_nil]

/-! ### The buffer -/

/-- What a search of the buffer leaves: the carried text at its front, and as
    much printed of the text behind as the rest of the file will not print. -/
structure Searched (p : Places) (name pattern : List Byte) (cnt : Int) (text rest : List Byte) (mem : Mem)
    (carry printed : List Byte) (mem' : Mem) : Prop where
  same : ∀ b, b < p.data ∨ p.data + (BUFSIZE + 1) ≤ b → mem' b = mem b
  bytes : Bytes mem' p.data carry
  plain : ∀ c ∈ carry, c ≠ 0
  short : carry.length < BUFSIZE
  last : cnt = 0 → carry = []
  behind : mem (p.data + BUFSIZE) ≠ NEWLINE → mem' (p.data + BUFSIZE) ≠ NEWLINE
  prints : printed ++ output name pattern (carry ++ rest) = output name pattern (text ++ rest)

/-- The terminator of a line in the buffer. -/
theorem terminated_text {line_start : Nat} {mem : Mem} (bytes : Bytes mem (p.data + line_start) line)
    (plain : ∀ c ∈ line, c ≠ 0) :
    Text (Function.update mem (p.data + (line_start + line.length)) 0) (p.data + line_start) line where
  bytes := bytes.congr (fun b low high => Function.update_of_ne (by omega) _ _)
  terminator := by rw [Nat.add_assoc,Function.update_self]
  plain := plain

theorem terminated_same {mem : Mem} {line_end : Nat} (within : line_end ≤ BUFSIZE) (b : Nat)
    (outside : b < p.data ∨ p.data + (BUFSIZE + 1) ≤ b) : Function.update mem (p.data + line_end) 0 b = mem b :=
  Function.update_of_ne (by omega) _ _

theorem terminated_behind {mem : Mem} (line_end : Nat) (behind : mem (p.data + BUFSIZE) ≠ NEWLINE) :
    Function.update mem (p.data + line_end) 0 (p.data + BUFSIZE) ≠ NEWLINE := by
  by_cases here : p.data + BUFSIZE = p.data + line_end
  · rw [here,Function.update_self]
    decide
  · rwa [Function.update_of_ne here]

/-- The search goes through the complete lines, and carries or prints the last
    one. The induction is on the lines that are left. -/
theorem search_lines_eq (enough : Enough name pattern limit) {cnt : Int} {rest : List Byte} (last_read : cnt = 0 → rest = [])
    (fuel : Nat) {m : Machine} {line_start : Nat} {text : List Byte} (placed : Placed p name pattern m)
    (bytes : Bytes m.mem (p.data + line_start) text) (plain : ∀ c ∈ text, c ≠ 0)
    (within : line_start + text.length ≤ BUFSIZE)
    (ends : rest = [] ∨ line_start + text.length = BUFSIZE ∧ m.mem (p.data + BUFSIZE) ≠ NEWLINE)
    (fits : text.length < fuel) :
    ∃ carry printed mem, search_lines p limit pattern.length cnt (line_start + text.length) line_start m fuel =
        some (carry.length,{ print m printed with mem := mem }) ∧
      Searched p name pattern cnt text rest m.mem carry printed mem := by
  induction fuel generalizing m line_start text with
  | zero => omega
  | succ fuel ih =>
    by_cases broken : NEWLINE ∈ text
    · obtain ⟨line,more,rfl,unbroken⟩ := List.eq_append_cons_of_mem broken
      rw [List.length_append,List.length_cons] at within fits ends ⊢
      obtain ⟨line_bytes,more_bytes⟩ := bytes_append.mp bytes
      obtain ⟨stop,more_bytes⟩ := bytes_cons.mp more_bytes
      have found := find_end_eq (n := line_start + (line.length + (more.length + 1)) - line_start) line_bytes unbroken
        (.inr ⟨by omega,stop⟩)
      have line_text := terminated_text line_bytes (fun c inside => plain c (List.mem_append_left _ inside))
      have terminated : Placed p name pattern
          { m with mem := Function.update m.mem (p.data + (line_start + line.length)) 0 } :=
        placed.congr ⟨placed.running.pid,placed.running.mapped,placed.running.table⟩ (terminated_same (by omega))
      have searched := line_searched terminated enough line_text (by omega)
      rw [search_lines,found]
      dsimp only
      rw [if_neg (by rw [← Nat.add_assoc,stop]; exact fun all => all.1 rfl),Nat.add_sub_cancel_left,searched,Option.bind_some]
      by_cases done : more = []
      · subst done
        rw [if_pos (by rw [List.length_nil]; omega)]
        refine ⟨[],_,_,rfl,terminated_same (by omega),bytes_nil,by simp,by decide,fun _ => rfl,
          terminated_behind _,?_⟩
        rw [List.append_assoc,List.cons_append,output_line name pattern _ unbroken (by omega)]
      · have some_more := List.length_pos_iff.mpr done
        have place : p.data + (line_start + line.length + 1) = p.data + line_start + line.length + 1 := by omega
        have total : line_start + (line.length + (more.length + 1)) = line_start + line.length + 1 + more.length := by omega
        have next : Bytes (Function.update m.mem (p.data + (line_start + line.length)) 0)
            (p.data + (line_start + line.length + 1)) more := by
          rw [place]
          exact more_bytes.congr (fun b low high => Function.update_of_ne (by omega) _ _)
        rw [if_neg (by omega),total]
        obtain ⟨carry,printed,mem,answered,left⟩ := ih (terminated.congr (terminated.running.print _) (fun _ _ => rfl)) next
          (fun c inside => plain c (List.mem_append_right _ (List.mem_cons_of_mem _ inside))) (by omega)
          (ends.imp_right (fun full => ⟨by omega,terminated_behind _ full.2⟩)) (by omega)
        refine ⟨carry,report name pattern line ++ printed,mem,answered.trans ?_,?_⟩
        · rw [print_print]
          rfl
        · refine ⟨fun b outside => (left.same b outside).trans (terminated_same (by omega) b outside),left.bytes,left.plain,
            left.short,left.last,fun behind => left.behind (terminated_behind _ behind),?_⟩
          rw [List.append_assoc,left.prints,List.append_assoc,List.cons_append,
            output_line name pattern _ unbroken (by omega)]
    · have found := find_end_eq (n := line_start + text.length - line_start) bytes broken (.inl (by omega))
      have line_text := terminated_text bytes plain
      rw [search_lines,found]
      dsimp only
      by_cases carried : m.mem (p.data + (line_start + text.length)) ≠ NEWLINE ∧ cnt ≠ 0 ∧ line_start ≠ 0
      · have room := enough.buffer
        rw [if_pos carried,strcpy_eq line_text (Nat.le_add_right _ _) (show text.length < limit from by omega),
          Nat.add_sub_cancel_left]
        refine ⟨text,[],_,rfl,?_,(bytes_append.mp (bytes_storeBytes _ _ _)).1,plain,by omega,
          fun zero => absurd zero carried.2.1,?_,rfl⟩
        · intro b outside
          rw [storeBytes_outside (by simp; omega),terminated_same within b outside]
        · intro behind
          rw [storeBytes_outside (by simp; omega)]
          exact terminated_behind _ behind
      · have terminated : Placed p name pattern
            { m with mem := Function.update m.mem (p.data + (line_start + text.length)) 0 } :=
          placed.congr ⟨placed.running.pid,placed.running.mapped,placed.running.table⟩ (terminated_same within)
        rw [if_neg carried,Nat.add_sub_cancel_left,line_searched terminated enough line_text within,Option.bind_some,
          if_pos (by omega)]
        refine ⟨[],_,_,rfl,terminated_same within,bytes_nil,by simp,by decide,fun _ => rfl,terminated_behind _,?_⟩
        by_cases final : rest = []
        · subst final
          rw [List.append_nil,List.append_nil,output_nil,List.append_nil,output_last name pattern broken (by omega)]
        · -- a line that does not begin the buffer is carried
          obtain ⟨full,behind⟩ := ends.resolve_left final
          have start : line_start = 0 := by
            by_contra later
            exact carried ⟨by rwa [full],fun zero => final (last_read zero),later⟩
          rw [List.nil_append,output_full name pattern _ broken (by omega)]

/-! ### The file -/

variable {read : Nat → Int → Machine → Option (Int × Machine)} {R : Task → Nat → List Byte → Prop} {asks : Nat → Prop}

/-- Over a read that serves a text, `do_one_file` prints the pieces of it that
    contain the pattern. The induction is on what is left to read. -/
theorem read_loop_prints (serves : Serves read asks R) (asked : ∀ n, 0 < n → n ≤ BUFSIZE → asks n)
    (enough : Enough name pattern limit) (fuel : Nat) {m : Machine} {carry rest : List Byte}
    (placed : Placed p name pattern m) (bytes : Bytes m.mem p.data carry) (plain : ∀ c ∈ carry ++ rest, c ≠ 0)
    (short : carry.length < BUFSIZE) (next : R m.task (BUFSIZE - carry.length) rest)
    (behind : BUFSIZE < carry.length + rest.length → m.mem (p.data + BUFSIZE) ≠ NEWLINE) (fits : rest.length + 1 < fuel) :
    ∃ m', read_loop p limit read pattern.length carry.length m fuel = some (0,m') ∧ Placed p name pattern m' ∧
      m'.console = (print m (output name pattern (carry ++ rest))).console ∧ m'.cur_ptree = m.cur_ptree ∧
        ∀ n, asks n → R m'.task n [] := by
  induction fuel generalizing m carry rest with
  | zero => omega
  | succ fuel ih =>
    have buffer := placed.buffer
    have limited := enough.buffer
    obtain ⟨stored,task,answered,stored_short,counted,running,later⟩ := serves.answers placed.running
      (show InPage (p.data + carry.length) (BUFSIZE - carry.length) from
        ⟨by have low := buffer.1; omega,by have high := buffer.2; omega⟩) next
    have outside (b : Nat) (apart : b < p.data + carry.length ∨ p.data + BUFSIZE ≤ b) :
        storeBytes m.mem (p.data + carry.length) stored b = m.mem b := storeBytes_outside (by omega)
    have read_in : Placed p name pattern { m with mem := storeBytes m.mem (p.data + carry.length) stored, task := task } :=
      placed.congr running (fun b apart => outside b (by omega))
    have chunk : (rest.take (BUFSIZE - carry.length)).length = min (BUFSIZE - carry.length) rest.length := List.length_take
    have held : Bytes (storeBytes m.mem (p.data + carry.length) stored) (p.data + 0)
        (carry ++ rest.take (BUFSIZE - carry.length)) := by
      refine bytes_append.mpr ⟨bytes.congr (fun b low high => outside b (.inl high)),?_⟩
      rw [← counted]
      exact (bytes_storeBytes _ _ _).take _
    have whole : carry ++ rest.take (BUFSIZE - carry.length) ++ rest.drop (BUFSIZE - carry.length) = carry ++ rest := by
      rw [List.append_assoc,List.take_append_drop]
    have last_read : ((min (BUFSIZE - carry.length) rest.length : Nat) : Int) = 0 → rest.drop (BUFSIZE - carry.length) = [] := by
      intro zero
      exact List.drop_eq_nil_of_le (by omega)
    have ends : rest.drop (BUFSIZE - carry.length) = [] ∨
        0 + (carry ++ rest.take (BUFSIZE - carry.length)).length = BUFSIZE ∧
          storeBytes m.mem (p.data + carry.length) stored (p.data + BUFSIZE) ≠ NEWLINE := by
      by_cases final : rest.length ≤ BUFSIZE - carry.length
      · exact .inl (List.drop_eq_nil_of_le final)
      · exact .inr ⟨by rw [List.length_append,chunk]; omega,(outside _ (.inr le_rfl)).trans_ne (behind (by omega))⟩
    have held_plain : ∀ c ∈ carry ++ rest.take (BUFSIZE - carry.length), c ≠ 0 := by
      intro c inside
      refine plain c ?_
      rw [← whole]
      exact List.mem_append_left _ inside
    have total : (carry ++ rest.take (BUFSIZE - carry.length)).length =
        carry.length + min (BUFSIZE - carry.length) rest.length := by rw [List.length_append,chunk]
    obtain ⟨carry',printed,mem,searched,left⟩ := search_lines_eq enough last_read limit read_in held held_plain
      (by rw [total]; omega) ends (by rw [total]; omega)
    have prints := left.prints
    rw [whole] at prints
    have placed' : Placed p name pattern
        { print { m with mem := storeBytes m.mem (p.data + carry.length) stored, task := task } printed with mem := mem } :=
      read_in.congr ⟨running.pid,running.mapped,running.table⟩ left.same
    rw [total,Nat.zero_add] at searched
    rw [read_loop,answered,Option.bind_some]
    dsimp only
    rw [if_neg (by omega),Int.toNat_natCast,searched,Option.bind_some]
    dsimp only
    by_cases done : ((min (BUFSIZE - carry.length) rest.length : Nat) : Int) = 0
    · rw [if_pos done]
      refine ⟨_,rfl,placed',?_,rfl,fun n admitted => last_read done ▸ later n admitted⟩
      rw [left.last done,last_read done,List.nil_append,output_nil,List.append_nil] at prints
      rw [← prints]
      rfl
    · rw [if_neg done]
      obtain ⟨m',returned,after,shows,tree,ended⟩ := ih placed' left.bytes
        (by
          intro c inside
          rcases List.mem_append.mp inside with first | second
          · exact left.plain c first
          · exact plain c (List.mem_append_right _ (List.mem_of_mem_drop second)))
        left.short (later _ (asked _ (by have := left.short; omega) (by omega)))
        (by
          intro more
          rw [List.length_drop] at more
          have fits := left.short
          exact left.behind ((outside _ (.inr le_rfl)).trans_ne (behind (by omega))))
        (by rw [List.length_drop]; omega)
      refine ⟨m',returned,after,shows.trans ?_,tree,ended⟩
      rw [← prints]
      have joined := congrArg Machine.console (print_print m printed
        (output name pattern (carry' ++ rest.drop (BUFSIZE - carry.length))))
      exact joined

/-- `do_one_file` over a descriptor that serves a text of at most 1024 bytes
    prints the lines of it that contain the pattern and closes the descriptor. -/
theorem do_one_file_serves {wait : Console → Int × List Byte × Console} {file_sys : FileSys} {fd : Int} {task : Task}
    {text : List Byte} (serves : Serves (do_read file_sys wait fd) asks R) (asked : ∀ n, 0 < n → n ≤ BUFSIZE → asks n)
    (placed : Placed p name pattern m) (enough : Enough name pattern limit)
    (opens : ece391_open file_sys p.fname limit m = some (fd,{ m with task := task }))
    (running : Running { m with task := task }) (next : R task BUFSIZE text) (plain : ∀ c ∈ text, c ≠ 0)
    (small : text.length ≤ BUFSIZE) (descriptor : 2 ≤ fd ∧ fd ≤ 7)
    (opened : ∀ {task n rest}, R task n rest → Descriptors.is_open (task.files fd) = true) {fuel : Nat}
    (fits : BUFSIZE + 1 < fuel) :
    ∃ m' task', do_one_file p limit file_sys wait fuel m = some (0,m') ∧ Placed p name pattern m' ∧
      m'.console = (print m ((text.splitOn NEWLINE).flatMap (report name pattern))).console ∧ m'.cur_ptree = m.cur_ptree ∧
      R task' BUFSIZE [] ∧
      m'.task = task'.setFile fd { task'.files fd with fops := none, inode := none, offset := 0, flags := 0 } := by
  have placed' : Placed p name pattern { m with task := task } := placed.congr running (fun _ _ => rfl)
  obtain ⟨m',returned,after,shows,tree,ended⟩ := read_loop_prints serves asked enough fuel placed' bytes_nil
    (show ∀ c ∈ [] ++ text, c ≠ 0 from plain) (by decide) next
    (fun more => absurd more (by rw [List.length_nil]; omega)) (by omega)
  have still := ended BUFSIZE (asked BUFSIZE (by decide) le_rfl)
  have closes : Descriptors.do_close fd m'.task = (0,m'.task.setFile fd
      { m'.task.files fd with fops := none, inode := none, offset := 0, flags := 0 }) := by
    rw [Descriptors.do_close,if_neg (by omega),if_neg (not_not.mpr ((Descriptors.is_open_iff _).mp (opened still)))]
  refine ⟨{ m' with task := m'.task.setFile fd { m'.task.files fd with fops := none, inode := none, offset := 0, flags := 0 } },
    m'.task,?_,after.congr ⟨after.running.pid,after.running.mapped,?_⟩ (fun _ _ => rfl),?_,tree,still,rfl⟩
  · rw [do_one_file,strlen_eq placed.s.text enough.pattern,Option.bind_some,opens,Option.bind_some]
    dsimp only
    rw [if_neg (by omega)]
    rw [List.length_nil] at returned
    rw [returned,Option.bind_some]
    dsimp only
    rw [if_neg (by decide),ece391_close,closes]
    rfl
  · refine Descriptors.table_setFile after.running.table descriptor.1 ?_
    intro impossible
    exact absurd impossible (by dsimp only [Descriptors.is_open]; decide)
  · rw [← output_lines name pattern (fun line inside => (line_le _ inside).trans small)]
    exact shows

def places : Places where
  s := 0x8000000
  fname := 0x8000010
  data := 0x8001000
  colon := 0x8000020
  newline := 0x8000030
  open_failed := 0
  read_failed := 0
  close_failed := 0

/-- The task has the pattern `h`, the name `f`, `:` and a line break in its page. -/
def machine : Machine :=
  { Cat.machine with
    mem := fun a =>
      if a = 0x8000000 then 104 else if a = 0x8000010 then 102 else if a = 0x8000020 then 58
      else if a = 0x8000030 then NEWLINE else 0 }

theorem placed_machine : Placed places [102] [104] machine := by
  have text {a : Nat} {c : Byte} (first : machine.mem a = c) (next : machine.mem (a + 1) = 0) (nonzero : c ≠ 0)
      (low : EXECUTION_ADDR ≤ a) (high : a + 1 < places.data) : Apart places machine.mem a [c] := by
    refine ⟨⟨bytes_cons.mpr ⟨first,bytes_nil⟩,next,by simpa using nonzero⟩,⟨low,?_⟩,.inl high⟩
    dsimp only [places] at high
    dsimp only [EXECUTION_ADDR,SIZE_4MB_PAGE,List.length_singleton]
    omega
  exact ⟨⟨Cat.running_machine.pid,Cat.running_machine.mapped,Cat.running_machine.table⟩,by unfold InPage; decide,
    text rfl rfl (by decide) (by decide) (by decide),text rfl rfl (by decide) (by decide) (by decide),
    text rfl rfl (by decide) (by decide) (by decide),text rfl rfl (by decide) (by decide) (by decide)⟩

end Mp3Kernel.Grep

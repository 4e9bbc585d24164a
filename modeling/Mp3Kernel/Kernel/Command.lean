import Mathlib.Data.List.GetD
import Mp3Kernel.Lib.Memory
import Mp3Kernel.Lib.Words

/-!
The loop of `do_execute` that takes a command apart. It skips spaces, switches
from the program name to the arguments at the first of them, and then copies
one character whatever it is; so spaces before the name leave it empty, and
spaces before the end carry the loop past the terminator.
-/
namespace Mp3Kernel.Command
open Mp3Kernel.Memory Mp3Kernel.Words

abbrev SPACE : Byte := 32
abbrev NEWLINE : Byte := 10

/-- The locals of the loop, and the indices of `command` that it has read. -/
structure Parse where
  commandBufferIndex : Nat
  argsBufferIndex : Nat
  pgmNameIndex : Nat
  gotProgamName : Bool
  programName : Nat → Byte
  argsBuffer : Nat → Byte
  reads : List Nat

def set (buffer : Nat → Byte) (i : Nat) (ch : Byte) : Nat → Byte := fun j => if j = i then ch else buffer j

/-- The indices are `uint8_t`. A store past the end of an array has no result. -/
def put_name (ch : Byte) (s : Parse) : Option Parse :=
  if s.pgmNameIndex < 32 then
    some { s with programName := set s.programName s.pgmNameIndex ch, pgmNameIndex := (s.pgmNameIndex + 1) % 256 }
  else none

def put_args (ch : Byte) (s : Parse) : Option Parse :=
  if s.argsBufferIndex < 128 then
    some { s with argsBuffer := set s.argsBuffer s.argsBufferIndex ch, argsBufferIndex := (s.argsBufferIndex + 1) % 256 }
  else none

section
variable (command : Nat → Byte)

/-- The first index from `i` on that holds no space. -/
def skip_spaces (i : Nat) : Nat → Option Nat
  | 0 => none
  | fuel + 1 => if command i = SPACE then skip_spaces (i + 1) fuel else some i

/-- A run of spaces ends the name, or leaves one space in the arguments. -/
def end_word (s : Parse) : Option Parse :=
  if s.gotProgamName then put_args SPACE s else put_name 0 { s with gotProgamName := true }

def copy_char (s : Parse) : Option Parse :=
  let ch := command s.commandBufferIndex
  let s := { s with
    commandBufferIndex := (s.commandBufferIndex + 1) % 256
    reads := s.reads ++ [s.commandBufferIndex] }
  if s.gotProgamName then put_args ch s else put_name ch s

/-- The body of the loop. -/
def parse_step (fuel : Nat) (s : Parse) : Option Parse :=
  (skip_spaces command s.commandBufferIndex fuel).bind fun i =>
    let looked := { s with reads := s.reads ++ List.range' s.commandBufferIndex (i + 1 - s.commandBufferIndex) }
    if i ≠ s.commandBufferIndex then
      (end_word looked).bind fun s => copy_char command { s with commandBufferIndex := i % 256 }
    else copy_char command looked

def parse : Nat → Parse → Option Parse
  | 0, _ => none
  | fuel + 1, s =>
    let s := { s with reads := s.reads ++ [s.commandBufferIndex] }
    if command s.commandBufferIndex ≠ 0 ∧ command s.commandBufferIndex ≠ NEWLINE then
      (parse_step command (fuel + 1) s).bind (parse fuel)
    else some s

def finish (s : Parse) : Option Parse :=
  if s.argsBufferIndex < 128 then
    some { s with
      argsBuffer := set s.argsBuffer s.argsBufferIndex 0
      programName := fun i => if s.pgmNameIndex ≤ i ∧ i < 32 then 0 else s.programName i }
  else none

/-- The parse of a command into the two buffers, whatever they hold before;
    nothing once the fuel is used up. -/
def parse_command (programName argsBuffer : Nat → Byte) (fuel : Nat) : Option Parse :=
  (parse command fuel ⟨0,0,0,false,programName,argsBuffer,[]⟩).bind finish

end

/-! ### What a command stands for -/

/-- The command holds the text and a terminator after it. -/
structure Holds (command : Nat → Byte) (text : List Byte) : Prop where
  chars : ∀ i (inside : i < text.length), command i = text[i]
  ends : command text.length = 0 ∨ command text.length = NEWLINE
  plain : ∀ c ∈ text, c ≠ 0 ∧ c ≠ NEWLINE
  short : text.length < 128

/-- The first word of the text. -/
def program (text : List Byte) : List Byte := (words SPACE text).headD []

/-- The other words, with one space between two. -/
def arguments (text : List Byte) : List Byte := joined SPACE (words SPACE text).tail

/-- The parse ends with the first word, padded, as the name, the other words as
    the arguments, and has read nothing behind the terminator. -/
def Parses (command programName argsBuffer : Nat → Byte) (text : List Byte) : Prop :=
  ∃ fuel s, parse_command command programName argsBuffer fuel = some s ∧
    (∀ i < 32, s.programName i = (program text).getD i 0) ∧
    (∀ i ≤ (arguments text).length, s.argsBuffer i = (arguments text).getD i 0) ∧
    ∀ i ∈ s.reads, i ≤ text.length

variable {command : Nat → Byte} {text : List Byte} {s s' : Parse} {m : Nat}

theorem skip_spaces_some {i k : Nat} (skipped : skip_spaces command i m = some k) :
    i ≤ k ∧ (∀ j, i ≤ j → j < k → command j = SPACE) ∧ command k ≠ SPACE := by
  induction m generalizing i with
  | zero => cases skipped
  | succ m ih =>
    rw [skip_spaces] at skipped
    by_cases space : command i = SPACE
    · rw [if_pos space] at skipped
      obtain ⟨low,spaces,stop⟩ := ih skipped
      refine ⟨by omega,?_,stop⟩
      intro j from_ below
      by_cases first : j = i
      · rw [first]
        exact space
      · exact spaces j (by omega) below
    · rw [if_neg space] at skipped
      obtain rfl := Option.some.inj skipped
      exact ⟨le_rfl,fun j low below => by omega,space⟩

theorem skip_spaces_run {i : Nat} (n : Nat) (spaces : ∀ j < n, command (i + j) = SPACE) (stop : command (i + n) ≠ SPACE)
    (enough : n < m) : skip_spaces command i m = some (i + n) := by
  induction n generalizing i m with
  | zero =>
    obtain ⟨rest,rfl⟩ : ∃ rest, m = rest + 1 := ⟨m - 1,by omega⟩
    exact if_neg stop
  | succ n ih =>
    obtain ⟨rest,rfl⟩ : ∃ rest, m = rest + 1 := ⟨m - 1,by omega⟩
    have next (j : Nat) : i + 1 + j = i + (j + 1) := by omega
    have first : command i = SPACE := spaces 0 (by omega)
    rw [skip_spaces,if_pos first,ih (fun j below => by rw [next]; exact spaces _ (by omega)) (by rw [next]; exact stop)
      (by omega),next]

/-! ### A command without outer spaces -/

/-- A buffer filled up to its index. -/
def Buffered (buffer : Nat → Byte) (index : Nat) (written : List Byte) : Prop :=
  index = written.length ∧ ∀ i (inside : i < written.length), buffer i = written[i]

theorem buffered_push {buffer : Nat → Byte} {index : Nat} {written : List Byte} (ch : Byte)
    (buffered : Buffered buffer index written) (room : index < 255) :
    Buffered (set buffer index ch) ((index + 1) % 256) (written ++ [ch]) := by
  obtain ⟨rfl,chars⟩ := buffered
  refine ⟨by rw [List.length_append,List.length_singleton]; omega,?_⟩
  intro i inside
  rw [List.length_append,List.length_singleton] at inside
  rw [set]
  by_cases last : i = written.length
  · subst last
    simp
  · rw [if_neg last,chars i (by omega),List.getElem_append_left (by omega)]

/-- The loop before the text `rest`, with what it has written to both buffers. -/
structure Reads (text rest : List Byte) (got : Bool) (name args : List Byte) (s : Parse) : Prop where
  before : ∃ done, text = done ++ rest ∧ s.commandBufferIndex = done.length
  got : s.gotProgamName = got
  named : Buffered s.programName s.pgmNameIndex name
  filled : Buffered s.argsBuffer s.argsBufferIndex args
  room : args.length ≤ s.commandBufferIndex
  reads : ∀ i ∈ s.reads, i ≤ text.length

variable {rest name args : List Byte} {got : Bool} {c : Byte}

/-- The character at the index. -/
theorem Reads.char (holds : Holds command text) (reads : Reads text (c :: rest) got name args s) :
    s.commandBufferIndex < text.length ∧ command s.commandBufferIndex = c := by
  obtain ⟨done,rfl,index⟩ := reads.before
  have inside : done.length < (done ++ c :: rest).length := by simp
  rw [index]
  exact ⟨inside,by rw [holds.chars _ inside]; simp⟩

theorem Reads.looked (reads : Reads text rest got name args s) (more : List Nat) (within : ∀ i ∈ more, i ≤ text.length) :
    Reads text rest got name args { s with reads := s.reads ++ more } := by
  refine ⟨reads.before,reads.got,reads.named,reads.filled,reads.room,?_⟩
  intro i inside
  rcases List.mem_append.mp inside with before | now
  · exact reads.reads i before
  · exact within i now

/-- One character is copied to the buffer in turn. -/
theorem copy_char_reads (holds : Holds command text) (reads : Reads text (c :: rest) got name args s)
    (room : got = false → name.length < 32) : ∃ s', copy_char command s = some s' ∧
      Reads text rest got (if got then name else name ++ [c]) (if got then args ++ [c] else args) s' := by
  obtain ⟨inside,char⟩ := reads.char holds
  obtain ⟨done,whole,index⟩ := reads.before
  have short := holds.short
  have after : text = (done ++ [c]) ++ rest := by rw [whole]; simp
  have next : (s.commandBufferIndex + 1) % 256 = (done ++ [c]).length := by
    rw [List.length_append,List.length_singleton,← index]
    omega
  have indices : ∀ i ∈ s.reads ++ [s.commandBufferIndex], i ≤ text.length := by
    intro i listed
    rcases List.mem_append.mp listed with before | now
    · exact reads.reads i before
    · obtain rfl := List.mem_singleton.mp now
      omega
  have bound := reads.room
  have written := reads.filled.1
  cases got with
  | true =>
    have open_ : s.argsBufferIndex < 128 := by omega
    have copied : copy_char command s = put_args c { s with
        commandBufferIndex := (s.commandBufferIndex + 1) % 256, reads := s.reads ++ [s.commandBufferIndex] } := by
      rw [copy_char,char]
      exact if_pos reads.got
    rw [copied,put_args,if_pos open_]
    have pushed := buffered_push c reads.filled (by omega)
    refine ⟨_,rfl,⟨done ++ [c],after,next⟩,reads.got,reads.named,pushed,?_,indices⟩
    rw [if_pos rfl,List.length_append,List.length_singleton]
    dsimp only
    omega
  | false =>
    have open_ : s.pgmNameIndex < 32 := by
      have := room rfl
      have := reads.named.1
      omega
    have copied : copy_char command s = put_name c { s with
        commandBufferIndex := (s.commandBufferIndex + 1) % 256, reads := s.reads ++ [s.commandBufferIndex] } := by
      rw [copy_char,char]
      exact if_neg (by rw [reads.got]; decide)
    rw [copied,put_name,if_pos open_]
    have pushed := buffered_push c reads.named (by omega)
    refine ⟨_,rfl,⟨done ++ [c],after,next⟩,reads.got,pushed,reads.filled,?_,indices⟩
    rw [if_neg (by decide)]
    dsimp only
    omega

theorem parse_step_char (holds : Holds command text) (reads : Reads text (c :: rest) got name args s)
    (char : c ≠ SPACE) (room : got = false → name.length < 32) : ∃ s', parse_step command (m + 1) s = some s' ∧
      Reads text rest got (if got then name else name ++ [c]) (if got then args ++ [c] else args) s' := by
  obtain ⟨inside,here⟩ := reads.char holds
  have stays : skip_spaces command s.commandBufferIndex (m + 1) = some s.commandBufferIndex := by
    rw [skip_spaces,here,if_neg char]
  have looked := reads.looked (List.range' s.commandBufferIndex (s.commandBufferIndex + 1 - s.commandBufferIndex))
    (by
      intro i listed
      rw [List.mem_range'_1] at listed
      omega)
  obtain ⟨s',copied,after⟩ := copy_char_reads holds looked room
  refine ⟨s',?_,after⟩
  rw [parse_step,stays,Option.bind_some]
  dsimp only
  rw [if_neg (not_not.mpr rfl),copied]

theorem end_word_reads (named : Buffered s.programName s.pgmNameIndex name)
    (filled : Buffered s.argsBuffer s.argsBufferIndex args) (short : args.length < 128)
    (room : s.gotProgamName = false → name.length < 32) : ∃ s', end_word s = some s' ∧ s'.gotProgamName = true ∧
      Buffered s'.programName s'.pgmNameIndex (if s.gotProgamName then name else name ++ [0]) ∧
      Buffered s'.argsBuffer s'.argsBufferIndex (if s.gotProgamName then args ++ [SPACE] else args) ∧
      s'.reads = s.reads := by
  cases got : s.gotProgamName with
  | true =>
    have open_ : s.argsBufferIndex < 128 := by
      rw [filled.1]
      exact short
    rw [end_word,if_pos got,put_args,if_pos open_]
    exact ⟨_,rfl,got,named,buffered_push SPACE filled (by omega),rfl⟩
  | false =>
    have open_ : s.pgmNameIndex < 32 := by
      rw [named.1]
      exact room got
    have unnamed : ¬ s.gotProgamName = true := by
      rw [got]
      decide
    rw [end_word,if_neg unnamed,put_name,if_pos open_]
    have pushed := buffered_push 0 named (by omega)
    exact ⟨_,rfl,rfl,pushed,filled,rfl⟩

/-- A run of spaces with a character after it. -/
theorem parse_step_spaces (n : Nat) (holds : Holds command text)
    (reads : Reads text (List.replicate (n + 1) SPACE ++ c :: rest) got name args s) (char : c ≠ SPACE)
    (room : got = false → name.length < 32) (enough : n + 2 ≤ m) : ∃ s', parse_step command m s = some s' ∧
      Reads text rest true (if got then name else name ++ [0]) (args ++ if got then [SPACE,c] else [c]) s' := by
  obtain ⟨done,whole,index⟩ := reads.before
  have short := holds.short
  have length : text.length = done.length + (n + 1) + 1 + rest.length := by
    rw [whole]
    simp
    omega
  have run (j : Nat) (below : j < n + 1) : command (s.commandBufferIndex + j) = SPACE := by
    rw [holds.chars _ (by omega)]
    simp [whole,index,below]
  have stop : command (s.commandBufferIndex + (n + 1)) = c := by
    rw [holds.chars _ (by omega)]
    simp [whole,index]
  have skipped := skip_spaces_run (m := m) (n + 1) run (by rw [stop]; exact char) (by omega)
  have bound := reads.room
  have looked := reads.looked (List.range' s.commandBufferIndex (s.commandBufferIndex + (n + 1) + 1 - s.commandBufferIndex))
    (by
      intro i listed
      rw [List.mem_range'_1] at listed
      omega)
  rw [parse_step,skipped,Option.bind_some]
  dsimp only
  rw [if_pos (by omega)]
  obtain ⟨s₁,ended,got₁,named,filled,reads₁⟩ := end_word_reads looked.named looked.filled (by omega)
    (fun first => room (reads.got.symm.trans first))
  have after : Reads text (c :: rest) true (if got then name else name ++ [0]) (if got then args ++ [SPACE] else args)
      { s₁ with commandBufferIndex := (s.commandBufferIndex + (n + 1)) % 256 } := by
    rw [looked.got] at named filled
    refine ⟨⟨done ++ List.replicate (n + 1) SPACE,by rw [whole,List.append_assoc],?_⟩,got₁,named,filled,?_,?_⟩
    · rw [List.length_append,List.length_replicate,← index]
      dsimp only
      omega
    · dsimp only
      cases got with
      | true =>
        rw [if_pos rfl,List.length_append,List.length_singleton]
        omega
      | false =>
        rw [if_neg (by decide)]
        omega
    · intro i inside
      exact looked.reads i (reads₁ ▸ inside)
  obtain ⟨s',copied,result⟩ := copy_char_reads holds after (fun first => absurd first (by decide))
  refine ⟨s',by rw [ended,Option.bind_some,copied],?_⟩
  cases got with
  | true => simpa using result
  | false => simpa using result

theorem parse_done (holds : Holds command text) (reads : Reads text [] got name args s) :
    ∃ s', parse command (m + 1) s = some s' ∧ Reads text [] got name args s' := by
  obtain ⟨done,whole,index⟩ := reads.before
  rw [List.append_nil] at whole
  subst whole
  refine ⟨_,?_,reads.looked [s.commandBufferIndex] (by rw [index]; simp)⟩
  rw [parse]
  dsimp only
  rw [index,if_neg]
  rintro ⟨not_nul,not_newline⟩
  rcases holds.ends with nul | newline
  · exact not_nul nul
  · exact not_newline newline

theorem parse_more (holds : Holds command text) (reads : Reads text (c :: rest) got name args s) :
    parse command (m + 1) s = (parse_step command (m + 1) { s with reads := s.reads ++ [s.commandBufferIndex] }).bind
      (parse command m) ∧ Reads text (c :: rest) got name args { s with reads := s.reads ++ [s.commandBufferIndex] } := by
  obtain ⟨inside,char⟩ := reads.char holds
  obtain ⟨done,whole,_⟩ := reads.before
  refine ⟨?_,reads.looked _ (by intro i listed; obtain rfl := List.mem_singleton.mp listed; omega)⟩
  rw [parse]
  dsimp only
  rw [char,if_pos (holds.plain c (by rw [whole]; simp))]

/-- One round for a character that is no space, -/
theorem parse_round_char (holds : Holds command text) (reads : Reads text (c :: rest) got name args s)
    (char : c ≠ SPACE) (room : got = false → name.length < 32) : ∃ s', parse command (m + 1) s = parse command m s' ∧
      Reads text rest got (if got then name else name ++ [c]) (if got then args ++ [c] else args) s' := by
  obtain ⟨looped,looked⟩ := parse_more (m := m) holds reads
  obtain ⟨s',stepped,after⟩ := parse_step_char (m := m) holds looked char room
  exact ⟨s',by rw [looped,stepped,Option.bind_some],after⟩

/-- and one for a run of spaces with a character after it. -/
theorem parse_round_spaces (n : Nat) (holds : Holds command text)
    (reads : Reads text (List.replicate (n + 1) SPACE ++ c :: rest) got name args s) (char : c ≠ SPACE)
    (room : got = false → name.length < 32) (enough : n + 2 ≤ m + 1) : ∃ s', parse command (m + 1) s = parse command m s' ∧
      Reads text rest true (if got then name else name ++ [0]) (args ++ if got then [SPACE,c] else [c]) s' := by
  rw [List.replicate_succ,List.cons_append] at reads
  obtain ⟨looped,looked⟩ := parse_more (m := m) holds reads
  rw [← List.cons_append,← List.replicate_succ] at looked
  obtain ⟨s',stepped,after⟩ := parse_step_spaces n holds looked char room enough
  exact ⟨s',by rw [looped,stepped,Option.bind_some],after⟩

/-- The arguments: what is left of the text is squeezed into the buffer. -/
theorem parse_args (holds : Holds command text) (reads : Reads text rest true name args s)
    (trimmed : Trimmed SPACE rest) (enough : rest.length < m) : ∃ s', parse command m s = some s' ∧
      Reads text [] true name (args ++ squeezed SPACE rest) s' := by
  induction m generalizing rest args s with
  | zero => omega
  | succ m ih =>
    cases rest with
    | nil =>
      obtain ⟨s',parsed,after⟩ := parse_done holds reads
      exact ⟨s',parsed,by simpa using after⟩
    | cons c rest =>
      by_cases char : c = SPACE
      · subst char
        obtain ⟨n,x,more,run,char⟩ := trimmed.sep_run
        rw [run] at reads trimmed enough ⊢
        simp only [List.length_append,List.length_replicate,List.length_cons] at enough
        have trimmed' : Trimmed SPACE more := trimmed.suffix.tail
        obtain ⟨s₁,round,after⟩ := parse_round_spaces (m := m) n holds reads char (fun first => absurd first (by decide))
          (by omega)
        obtain ⟨s',parsed,result⟩ := ih after trimmed' (by omega)
        refine ⟨s',round.trans parsed,?_⟩
        rw [squeezed_sep_run n char,squeezed_char char trimmed']
        simpa using result
      · obtain ⟨s₁,round,after⟩ := parse_round_char (m := m) holds reads char (fun first => absurd first (by decide))
        obtain ⟨s',parsed,result⟩ := ih after trimmed.tail (by simpa using enough)
        refine ⟨s',round.trans parsed,?_⟩
        rw [squeezed_char char trimmed.tail]
        simpa using result

/-- The name: the first word goes to the name, with its terminator when more follows. -/
theorem parse_name (holds : Holds command text) (reads : Reads text rest false name [] s) (trimmed : Trimmed SPACE rest)
    (room : name.length + (rest.takeWhile (· ≠ SPACE)).length < 32) (enough : rest.length < m) :
    ∃ s' got ended, parse command m s = some s' ∧
      Reads text [] got (name ++ rest.takeWhile (· ≠ SPACE) ++ ended)
        (joined SPACE (words SPACE (rest.dropWhile (· ≠ SPACE)))) s' ∧ (ended = [] ∨ ended = [0]) := by
  induction rest generalizing name s m with
  | nil =>
    obtain ⟨m,rfl⟩ : ∃ less, m = less + 1 := ⟨m - 1,by omega⟩
    obtain ⟨s',parsed,after⟩ := parse_done (m := m) holds reads
    exact ⟨s',false,[],parsed,by simpa [joined] using after,Or.inl rfl⟩
  | cons c rest ih =>
    obtain ⟨m,rfl⟩ : ∃ less, m = less + 1 := ⟨m - 1,by omega⟩
    by_cases char : c = SPACE
    · subst char
      obtain ⟨n,x,more,run,char⟩ := trimmed.sep_run
      rw [run] at reads trimmed enough
      simp only [List.length_append,List.length_replicate,List.length_cons] at enough
      have trimmed' : Trimmed SPACE more := trimmed.suffix.tail
      obtain ⟨s₁,round,after⟩ := parse_round_spaces (m := m) n holds reads char (fun _ => by omega) (by omega)
      obtain ⟨s',parsed,result⟩ := parse_args (m := m) holds after trimmed' (by omega)
      refine ⟨s',true,[0],round.trans parsed,?_,Or.inr rfl⟩
      have squeeze : squeezed SPACE (x :: more) = joined SPACE (words SPACE (x :: more)) :=
        if_neg (by simpa using char)
      rw [List.takeWhile_cons_of_neg (by simp),List.dropWhile_cons_of_neg (by simp),run,words_sep_run,← squeeze,
        squeezed_char char trimmed']
      simpa using result
    · rw [List.takeWhile_cons_of_pos (by simpa using char)] at room ⊢
      rw [List.dropWhile_cons_of_pos (by simpa using char)]
      rw [List.length_cons] at room enough
      obtain ⟨s₁,round,after⟩ := parse_round_char (m := m) holds reads char (fun _ => by omega)
      obtain ⟨s',got,ended,parsed,result,terminated⟩ := ih (m := m) after trimmed.tail
        (by rw [if_neg (by decide),List.length_append,List.length_singleton]; omega) (by omega)
      refine ⟨s',got,ended,round.trans parsed,?_,terminated⟩
      simpa using result

theorem finish_reads (holds : Holds command text) (reads : Reads text [] got name args s) : ∃ s', finish s = some s' ∧
    (∀ i < 32, s'.programName i = name.getD i 0) ∧ (∀ i ≤ args.length, s'.argsBuffer i = args.getD i 0) ∧
    ∀ i ∈ s'.reads, i ≤ text.length := by
  obtain ⟨done,whole,index⟩ := reads.before
  rw [List.append_nil] at whole
  have bound := reads.room
  have short := holds.short
  rw [index,← whole] at bound
  obtain ⟨named,name_chars⟩ := reads.named
  obtain ⟨filled,arg_chars⟩ := reads.filled
  refine ⟨_,if_pos (by omega),?_,?_,reads.reads⟩
  · intro i inside
    dsimp only
    by_cases written : i < name.length
    · rw [if_neg (by omega),name_chars i written,List.getD_eq_getElem name 0 written]
    · rw [if_pos ⟨by omega,inside⟩,List.getD_eq_default name 0 (by omega)]
  · intro i inside
    dsimp only [set]
    by_cases written : i < args.length
    · rw [if_neg (by omega),arg_chars i written,List.getD_eq_getElem args 0 written]
    · rw [if_pos (by omega),List.getD_eq_default args 0 (by omega)]

/-- A first word with the rest, as the words of the text. -/
theorem words_of_head (first : text.head? ≠ some SPACE) :
    program text = text.takeWhile (· ≠ SPACE) ∧ arguments text = joined SPACE (words SPACE (text.dropWhile (· ≠ SPACE))) := by
  cases text with
  | nil => simp [program,arguments]
  | cons c rest =>
    have char : c ≠ SPACE := by simpa using first
    rw [program,arguments,words_cons char,List.takeWhile_cons_of_pos (by simpa using char),
      List.dropWhile_cons_of_pos (by simpa using char)]
    exact ⟨rfl,rfl⟩

/-- Without outer spaces the text is taken apart as it should be, -/
theorem parse_trimmed (programName argsBuffer : Nat → Byte) (holds : Holds command text)
    (named : (program text).length < 32) (first : text.head? ≠ some SPACE) (trimmed : Trimmed SPACE text)
    (enough : text.length < m) : ∃ s, parse_command command programName argsBuffer m = some s ∧
    (∀ i < 32, s.programName i = (program text).getD i 0) ∧
    (∀ i ≤ (arguments text).length, s.argsBuffer i = (arguments text).getD i 0) ∧ (∀ i ∈ s.reads, i ≤ text.length) ∧
    (arguments text).length ≤ text.length := by
  have start : Reads text text false [] [] ⟨0,0,0,false,programName,argsBuffer,[]⟩ :=
    ⟨⟨[],rfl,rfl⟩,rfl,⟨rfl,fun i inside => absurd inside (Nat.not_lt_zero i)⟩,
      ⟨rfl,fun i inside => absurd inside (Nat.not_lt_zero i)⟩,le_rfl,fun i listed => by cases listed⟩
  obtain ⟨program_eq,arguments_eq⟩ := words_of_head first
  rw [program_eq] at named
  obtain ⟨s,got,ended,parsed,reads,terminated⟩ := parse_name (m := m) holds start trimmed (by simpa using named) enough
  obtain ⟨s',finished,names,args,within⟩ := finish_reads holds reads
  obtain ⟨done,whole,index⟩ := reads.before
  have room := reads.room
  rw [index,← List.append_nil done,← whole,← arguments_eq] at room
  refine ⟨s',by rw [parse_command,parsed,Option.bind_some,finished],?_,?_,within,room⟩
  · intro i inside
    rw [names i inside,program_eq,List.nil_append]
    rcases terminated with rfl | rfl
    · rw [List.append_nil]
    · by_cases before : i < (text.takeWhile (· ≠ SPACE)).length
      · rw [List.getD_append _ _ _ _ before]
      · rw [List.getD_append_right _ _ _ _ (by omega),List.getD_eq_default (text.takeWhile (· ≠ SPACE)) 0 (by omega)]
        cases i - (text.takeWhile (· ≠ SPACE)).length <;> rfl
  · rw [arguments_eq]
    exact args

/-- with any fuel beyond its length. -/
theorem parses_of_trimmed (programName argsBuffer : Nat → Byte) (holds : Holds command text)
    (named : (program text).length < 32) (first : text.head? ≠ some SPACE) (trimmed : Trimmed SPACE text) :
    Parses command programName argsBuffer text := by
  obtain ⟨s,parsed,names,args,within,-⟩ :=
    parse_trimmed programName argsBuffer holds named first trimmed (Nat.lt_succ_self text.length)
  exact ⟨text.length + 1,s,parsed,names,args,within⟩

/-! ### Any completed parse -/

/-- What one round of the loop does when it ends at all: the reads grow, the
    index goes behind the spaces, and a name that has ended stays. -/
structure Stepped (command : Nat → Byte) (s s' : Parse) (k : Nat) : Prop where
  low : s.commandBufferIndex ≤ k
  spaces : ∀ j, s.commandBufferIndex ≤ j → j < k → command j = SPACE
  stop : command k ≠ SPACE
  next : s'.commandBufferIndex = (k + 1) % 256
  reads : ∀ i ∈ s.reads, i ∈ s'.reads
  ended : (s.gotProgamName = true ∨ k ≠ s.commandBufferIndex) → s'.gotProgamName = true
  kept : s.gotProgamName = true → s'.programName = s.programName
  cut : s.gotProgamName = false → k ≠ s.commandBufferIndex → s'.programName = set s.programName s.pgmNameIndex 0

theorem put_name_some {ch : Byte} (put : put_name ch s = some s') :
    s' = { s with programName := set s.programName s.pgmNameIndex ch, pgmNameIndex := (s.pgmNameIndex + 1) % 256 } := by
  rw [put_name] at put
  split at put
  · exact (Option.some.inj put).symm
  · cases put

theorem put_args_some {ch : Byte} (put : put_args ch s = some s') :
    s' = { s with argsBuffer := set s.argsBuffer s.argsBufferIndex ch, argsBufferIndex := (s.argsBufferIndex + 1) % 256 } := by
  rw [put_args] at put
  split at put
  · exact (Option.some.inj put).symm
  · cases put

theorem copy_char_some (copied : copy_char command s = some s') :
    s'.commandBufferIndex = (s.commandBufferIndex + 1) % 256 ∧ s'.reads = s.reads ++ [s.commandBufferIndex] ∧
      s'.gotProgamName = s.gotProgamName ∧ (s.gotProgamName = true → s'.programName = s.programName) := by
  rw [copy_char] at copied
  dsimp only at copied
  cases got : s.gotProgamName with
  | true =>
    rw [if_pos got] at copied
    obtain rfl := put_args_some copied
    exact ⟨rfl,rfl,got,fun _ => rfl⟩
  | false =>
    rw [if_neg (by rw [got]; decide)] at copied
    obtain rfl := put_name_some copied
    exact ⟨rfl,rfl,got,fun first => absurd first (by decide)⟩

theorem end_word_some (ended : end_word s = some s') : s'.gotProgamName = true ∧ s'.reads = s.reads ∧
    (s.gotProgamName = true → s'.programName = s.programName) ∧
    (s.gotProgamName = false → s'.programName = set s.programName s.pgmNameIndex 0) := by
  rw [end_word] at ended
  cases got : s.gotProgamName with
  | true =>
    rw [if_pos got] at ended
    obtain rfl := put_args_some ended
    exact ⟨got,rfl,fun _ => rfl,fun first => absurd first (by decide)⟩
  | false =>
    rw [if_neg (by rw [got]; decide)] at ended
    obtain rfl := put_name_some ended
    exact ⟨rfl,rfl,fun first => absurd first (by decide),fun _ => rfl⟩

theorem parse_step_some (stepped : parse_step command m s = some s') : ∃ k, Stepped command s s' k := by
  rw [parse_step,Option.bind_eq_some_iff] at stepped
  obtain ⟨k,skipped,stepped⟩ := stepped
  obtain ⟨low,spaces,stop⟩ := skip_spaces_some skipped
  dsimp only at stepped
  by_cases stays : k = s.commandBufferIndex
  · rw [if_neg (not_not.mpr stays)] at stepped
    obtain ⟨next,reads,got,kept⟩ := copy_char_some stepped
    dsimp only at next reads got kept
    refine ⟨k,low,spaces,stop,by rw [next,stays],?_,?_,kept,fun _ moved => absurd stays moved⟩
    · intro i inside
      rw [reads]
      exact List.mem_append_left _ (List.mem_append_left _ inside)
    · rintro (named | moved)
      · rw [got,named]
      · exact absurd stays moved
  · rw [if_pos stays,Option.bind_eq_some_iff] at stepped
    obtain ⟨s₁,ended,copied⟩ := stepped
    obtain ⟨got₁,reads₁,kept₁,cut₁⟩ := end_word_some ended
    obtain ⟨next,reads,got,kept⟩ := copy_char_some copied
    dsimp only at next reads got kept got₁ reads₁ kept₁ cut₁
    refine ⟨k,low,spaces,stop,by rw [next]; omega,?_,fun _ => by rw [got,got₁],?_,?_⟩
    · intro i inside
      rw [reads,reads₁]
      exact List.mem_append_left _ (List.mem_append_left _ inside)
    · intro named
      rw [kept got₁,kept₁ named]
    · intro unnamed _
      rw [kept got₁,cut₁ unnamed]

/-- The loop reads the character at its index, and then goes round once more or ends. -/
theorem parse_cases (parsed : parse command m s = some s') : ∃ more, m = more + 1 ∧
    ((∃ s₁ k, Stepped command { s with reads := s.reads ++ [s.commandBufferIndex] } s₁ k ∧
        parse command more s₁ = some s') ∨
      ¬ (command s.commandBufferIndex ≠ 0 ∧ command s.commandBufferIndex ≠ NEWLINE) ∧
        s' = { s with reads := s.reads ++ [s.commandBufferIndex] }) := by
  obtain _ | more := m
  · cases parsed
  · refine ⟨more,rfl,?_⟩
    rw [parse] at parsed
    dsimp only at parsed
    split at parsed
    · obtain ⟨s₁,stepped,rest⟩ := Option.bind_eq_some_iff.mp parsed
      obtain ⟨k,stepped⟩ := parse_step_some stepped
      exact .inl ⟨s₁,k,stepped,rest⟩
    · exact .inr ⟨‹_›,(Option.some.inj parsed).symm⟩

theorem parse_some (parsed : parse command m s = some s') : s.commandBufferIndex ∈ s'.reads ∧ ∀ i ∈ s.reads, i ∈ s'.reads := by
  induction m generalizing s with
  | zero => cases parsed
  | succ m ih =>
    obtain ⟨more,same,⟨s₁,k,stepped,rest⟩ | ⟨-,rfl⟩⟩ := parse_cases parsed
    · obtain rfl := Nat.succ.inj same
      obtain ⟨_,later⟩ := ih rest
      exact ⟨later _ (stepped.reads _ (by simp)),fun i inside => later _ (stepped.reads _ (by simp [inside]))⟩
    · exact ⟨by simp,fun i inside => by simp [inside]⟩

theorem parse_named (named : s.gotProgamName = true) (parsed : parse command m s = some s') :
    s'.programName = s.programName := by
  induction m generalizing s with
  | zero => cases parsed
  | succ m ih =>
    obtain ⟨more,same,⟨s₁,k,stepped,rest⟩ | ⟨-,rfl⟩⟩ := parse_cases parsed
    · obtain rfl := Nat.succ.inj same
      rw [ih (stepped.ended (Or.inl named)) rest,stepped.kept named]
    · rfl

/-- Spaces before the end carry the loop past the terminator. -/
theorem parse_past_end (holds : Holds command text) (last : text.getLast? = some SPACE)
    (inside : s.commandBufferIndex < text.length) (parsed : parse command m s = some s') : text.length + 1 ∈ s'.reads := by
  have short := holds.short
  obtain ⟨front,whole⟩ : ∃ front, text = front ++ [SPACE] := List.getLast?_eq_some_iff.mp last
  have length : text.length = front.length + 1 := by rw [whole]; simp
  have space : command front.length = SPACE := by
    rw [holds.chars _ (by omega)]
    simp [whole]
  have ends : command text.length ≠ SPACE := by
    rcases holds.ends with nul | newline
    · rw [nul]
      decide
    · rw [newline]
      decide
  induction m generalizing s with
  | zero => cases parsed
  | succ m ih =>
    have plain := holds.plain _ (List.getElem_mem inside)
    rw [← holds.chars _ inside] at plain
    obtain ⟨more,same,⟨s₁,k,stepped,rest⟩ | ⟨done,-⟩⟩ := parse_cases parsed
    case inr => exact absurd plain done
    obtain rfl := Nat.succ.inj same
    have not_last : k ≠ front.length := by
      rintro rfl
      exact stepped.stop space
    have within : k ≤ text.length := by
      by_contra beyond
      exact ends (stepped.spaces text.length (by dsimp only; omega) (by omega))
    have next := stepped.next
    by_cases reached : k = text.length
    · have here := (parse_some rest).1
      rwa [next,reached,Nat.mod_eq_of_lt (by omega)] at here
    · exact ih (by omega) rest

/-- Spaces at the start leave the name empty. -/
theorem parse_unnamed (space : command 0 = SPACE) (start : s.commandBufferIndex = 0 ∧ s.gotProgamName = false ∧ s.pgmNameIndex = 0)
    (parsed : parse command m s = some s') : s'.programName 0 = 0 := by
  obtain ⟨index,unnamed,empty⟩ := start
  obtain ⟨more,-,⟨s₁,k,stepped,rest⟩ | ⟨done,-⟩⟩ := parse_cases parsed
  · have moved : k ≠ s.commandBufferIndex := by
      rintro rfl
      exact stepped.stop (index ▸ space)
    rw [parse_named (stepped.ended (Or.inr moved)) rest,stepped.cut unnamed moved]
    dsimp only
    rw [empty]
    rfl
  · rw [index,space] at done
    exact absurd (by decide) done

theorem program_head (holds : Holds command text) (some_ : text ≠ []) (trimmed : Trimmed SPACE text) :
    (program text).getD 0 0 ≠ 0 := by
  obtain ⟨run,x,rest,whole,char⟩ : ∃ run x rest, text = List.replicate run SPACE ++ x :: rest ∧ x ≠ SPACE := by
    cases text with
    | nil => exact absurd rfl some_
    | cons c rest =>
      by_cases char : c = SPACE
      · subst char
        obtain ⟨n,x,rest,whole,char⟩ := trimmed.sep_run
        exact ⟨n + 1,x,rest,whole,char⟩
      · exact ⟨0,c,rest,rfl,char⟩
  have plain := (holds.plain x (by rw [whole]; simp)).1
  rw [program,whole,words_sep_run,words_cons char]
  exact plain

theorem parse_command_some {programName argsBuffer : Nat → Byte}
    (completed : parse_command command programName argsBuffer m = some s) :
    ∃ s₁, parse command m ⟨0,0,0,false,programName,argsBuffer,[]⟩ = some s₁ ∧ s.reads = s₁.reads ∧
      (s₁.programName 0 = 0 → s.programName 0 = 0) := by
  obtain ⟨s₁,parsed,finished⟩ := Option.bind_eq_some_iff.mp completed
  rw [finish] at finished
  split at finished
  case isFalse => cases finished
  obtain rfl := Option.some.inj finished
  refine ⟨s₁,parsed,rfl,?_⟩
  intro empty
  dsimp only
  rw [empty,ite_self]

/-- The parse is right exactly when no space stands before or after the command. -/
theorem do_execute_parses_iff (programName argsBuffer : Nat → Byte) (holds : Holds command text)
    (named : (program text).length < 32) : Parses command programName argsBuffer text ↔
      text.head? ≠ some SPACE ∧ text.getLast? ≠ some SPACE := by
  constructor
  · rintro ⟨fuel,s,completed,name,_,within⟩
    obtain ⟨s₁,parsed,reads,empty⟩ := parse_command_some completed
    have trimmed : text.getLast? ≠ some SPACE := by
      intro last
      have inside : 0 < text.length := by
        cases text with
        | nil => cases last
        | cons c rest => exact Nat.succ_pos _
      have past := parse_past_end holds last inside parsed
      rw [← reads] at past
      have := within _ past
      omega
    refine ⟨?_,trimmed⟩
    intro first
    have some_ : text ≠ [] := by
      rintro rfl
      cases first
    have space : command 0 = SPACE := by
      cases text with
      | nil => cases first
      | cons c rest =>
        rw [holds.chars 0 (Nat.succ_pos _)]
        exact Option.some.inj first
    have unnamed := empty (parse_unnamed space ⟨rfl,rfl,rfl⟩ parsed)
    exact program_head holds some_ trimmed ((name 0 (by decide)).symm.trans unnamed)
  · rintro ⟨first,trimmed⟩
    exact parses_of_trimmed programName argsBuffer holds named first trimmed

theorem holds_text (plain : ∀ c ∈ text, c ≠ 0 ∧ c ≠ NEWLINE) (short : text.length < 128) :
    Holds (fun i => text.getD i 0) text :=
  ⟨fun _ inside => List.getD_eq_getElem text 0 inside,Or.inl (List.getD_eq_default text 0 le_rfl),plain,short⟩

/-- `"a  b"` -/
theorem do_execute_parses_two_words :
    Parses (fun i => ([97,32,32,98] : List Byte).getD i 0) (fun _ => 0) (fun _ => 0) [97,32,32,98] ↔
      ([97,32,32,98] : List Byte).head? ≠ some SPACE ∧ ([97,32,32,98] : List Byte).getLast? ≠ some SPACE :=
  do_execute_parses_iff (fun _ => 0) (fun _ => 0) (holds_text (by decide) (by decide)) (by decide)

/-- `"ls "`: the parse reads the character behind the terminator. -/
theorem do_execute_reads_on : Holds (fun i => ([108,115,32] : List Byte).getD i 0) [108,115,32] ∧
    (program [108,115,32]).length < 32 ∧
    ¬ Parses (fun i => ([108,115,32] : List Byte).getD i 0) (fun _ => 0) (fun _ => 0) [108,115,32] := by
  have holds : Holds (fun i => ([108,115,32] : List Byte).getD i 0) [108,115,32] := holds_text (by decide) (by decide)
  refine ⟨holds,by decide,?_⟩
  rintro ⟨fuel,s,completed,_,_,within⟩
  obtain ⟨s₁,parsed,reads,_⟩ := parse_command_some completed
  have past := parse_past_end holds rfl (show 0 < 3 from by decide) parsed
  rw [← reads] at past
  exact absurd (within _ past) (by decide)

end Mp3Kernel.Command

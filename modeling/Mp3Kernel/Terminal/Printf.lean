import Mp3Kernel.Terminal.Itoa
import Mp3Kernel.Terminal.Console

/-!
`printf` and `vprintf` of lib.c. The two differ in where a character goes, so
there is one loop over formats, with `putc` or `vputc` as a parameter. It keeps
account of the stores to its conversion buffers and of the format characters
that it reads.
-/
namespace Mp3Kernel.Printf
open Mp3Kernel.Memory Mp3Kernel.Screen Mp3Kernel.Positional Mp3Kernel.Tty Mp3Kernel.Itoa

/-! ### lib.c -/

/-- The memory that strings are in, the format, and the words behind it on the stack. -/
structure Source where
  mem : Mem
  format : Buffer
  args : Nat → Word

/-- A call puts characters somewhere, and each conversion finds its buffer as it
    is on the stack. -/
structure Call (S : Type) extends Source where
  put : Byte → S → S
  stack : Nat → Buffer

/-- Where the output stands, the next argument, the stores to buffers, each with
    the size of the buffer, and the indices of the format that were read. -/
structure Printer (S : Type) where
  out : S
  esp : Nat
  stores : List (Int × Int)
  reads : List Int

variable {S : Type}

/-- The loop of `puts` and `vputs`. -/
def puts_loop (put : Byte → S → S) (chars : Buffer) (s : Int) : (fuel : Nat) → (index : Nat) → S → Option (Nat × S)
  | 0, _, _ => none
  | fuel + 1, index, out =>
    if chars (s + index) ≠ 0 then puts_loop put chars s fuel (index + 1) (put (chars (s + index)) out)
    else some (index,out)

def puts (put : Byte → S → S) (fuel : Nat) (chars : Buffer) (s : Int) (out : S) : Option (Nat × S) :=
  puts_loop put chars s fuel 0 out

/-- The end of a number's conversion: the text from index `s` of its buffer is
    printed, and the argument is done with. -/
def print_buf (k : Call S) (fuel : Nat) (size : Int) (b : CharBuf) (s : Int) (p : Printer S) : Option (Printer S) :=
  (puts k.put fuel b.chars s p.out).map fun (_,out) =>
    { p with out := out, esp := p.esp + 1, stores := p.stores ++ b.stores.map (fun i => (size,i)) }

/-- The conversion buffer before it is filled. -/
def conv_buf (k : Call S) (p : Printer S) : CharBuf := ⟨k.stack p.esp,[]⟩

/-- The loop that fills up with zeros. -/
def pad (i : Nat) (b : CharBuf) : CharBuf := if i < 8 then pad (i + 1) (b.put i (ascii '0')) else b
termination_by 8 - i

def print_x (k : Call S) (fuel : Nat) (alternate : Bool) (p : Printer S) : Option (Printer S) :=
  if alternate = false then
    (itoa fuel (k.args p.esp) 0 16 (conv_buf k p)).bind fun b => print_buf k fuel 64 b 0 p
  else
    (itoa fuel (k.args p.esp) 8 16 (conv_buf k p)).bind fun b =>
      (strlen fuel 8 b.chars).bind fun starting_index =>
        print_buf k fuel 64 (pad starting_index b) starting_index p

def print_u (k : Call S) (fuel : Nat) (p : Printer S) : Option (Printer S) :=
  (itoa fuel (k.args p.esp) 0 10 (conv_buf k p)).bind fun b => print_buf k fuel 36 b 0 p

def print_d (k : Call S) (fuel : Nat) (p : Printer S) : Option (Printer S) :=
  let value := k.args p.esp
  -- the negation wraps for the smallest number
  (if value.toInt < 0 then itoa fuel (-value) 1 10 ((conv_buf k p).put 0 (ascii '-'))
    else itoa fuel value 0 10 (conv_buf k p)).bind fun b => print_buf k fuel 36 b 0 p

def print_c (k : Call S) (p : Printer S) : Printer S :=
  { p with out := k.put ((k.args p.esp).setWidth 8) p.out, esp := p.esp + 1 }

/-- The characters behind a pointer. -/
def pointer (mem : Mem) (s : Word) : Buffer := fun i => mem (s.toNat + i).toNat

def print_s (k : Call S) (fuel : Nat) (p : Printer S) : Option (Printer S) :=
  (puts k.put fuel (pointer k.mem (k.args p.esp)) 0 p.out).map fun (_,out) => { p with out := out, esp := p.esp + 1 }

/-- The inner switch, on the character at `buf`, and the `buf` it ends with. -/
def format_char_switch (k : Call S) : (fuel : Nat) → (alternate : Bool) → (buf : Int) → Printer S →
    Option (Int × Printer S)
  | 0, _, _, _ => none
  | fuel + 1, alternate, buf, p =>
    let c := k.format buf
    let p := { p with reads := p.reads ++ [buf] }
    if c = ascii '%' then some (buf,{ p with out := k.put c p.out })
    else if c = ascii '#' then format_char_switch k fuel true (buf + 1) p
    else if c = ascii 'x' then (print_x k fuel alternate p).map fun p => (buf,p)
    else if c = ascii 'u' then (print_u k fuel p).map fun p => (buf,p)
    else if c = ascii 'd' then (print_d k fuel p).map fun p => (buf,p)
    else if c = ascii 'c' then some (buf,print_c k p)
    else if c = ascii 's' then (print_s k fuel p).map fun p => (buf,p)
    -- any other character is passed by, a NUL too
    else some (buf,p)

/-- The outer loop at `buf`. -/
def scan (k : Call S) : (fuel : Nat) → (buf : Int) → Printer S → Option (Int × Printer S)
  | 0, _, _ => none
  | fuel + 1, buf, p =>
    let c := k.format buf
    let p := { p with reads := p.reads ++ [buf] }
    if c = 0 then some (buf,p)
    else if c = ascii '%' then
      (format_char_switch k fuel false (buf + 1) p).bind fun (buf,p) => scan k fuel (buf + 1) p
    else scan k fuel (buf + 1) { p with out := k.put c p.out }

/-- The value returned is how far the loop has come, as a signed number. -/
def print_format (k : Call S) (fuel : Nat) (out : S) : Option (Int × Printer S) :=
  (scan k fuel 0 ⟨out,0,[],[]⟩).map fun (buf,p) => (i32 buf.toNat,p)

def printf (fuel : Nat) (source : Source) (stack : Nat → Buffer) (c : Console) : Option (Int × Printer Console) :=
  print_format ⟨source,putc,stack⟩ fuel c

def vprintf (fuel : Nat) (source : Source) (stack : Nat → Buffer) (term : Terminal) : Option (Int × Printer Terminal) :=
  print_format ⟨source,vputc,stack⟩ fuel term

/-! ### Formats -/

/-- What a percent sign and its `#`s lead to. -/
inductive Conv where
  | percent | hexadecimal | unsigned | signed | char | string
  | other (c : Byte) (unknown : c ∉ 0 :: ['%','#','x','u','d','c','s'].map ascii)

def Conv.char_of : Conv → Byte
  | .percent => ascii '%'
  | .hexadecimal => ascii 'x'
  | .unsigned => ascii 'u'
  | .signed => ascii 'd'
  | .char => ascii 'c'
  | .string => ascii 's'
  | .other c _ => c

/-- A format is taken apart into characters and directives. -/
inductive Piece where
  | plain (c : Byte) (shown : c ≠ 0 ∧ c ≠ ascii '%')
  | directive (sharps : Nat) (conv : Conv)

def Piece.spelled : Piece → List Byte
  | .plain c _ => [c]
  | .directive sharps conv => ascii '%' :: (List.replicate sharps (ascii '#') ++ [conv.char_of])

/-- How many arguments it uses up. -/
def Piece.takes : Piece → Nat
  | .plain _ _ | .directive _ .percent | .directive _ (.other _ _) => 0
  | .directive _ _ => 1

/-- The signed number that a text denotes. -/
def read_signed (text : List Byte) : Option Int :=
  if text.head? = some (ascii '-') then (read digit_value 10 text.tail).map (fun n : Nat => -(n : Int))
  else (read digit_value 10 text).map Int.ofNat

/-- The text is right for the piece and its argument: numbers read back. -/
def Shows (mem : Mem) (arg : Word) (text : List Byte) : Piece → Prop
  | .plain c _ => text = [c]
  | .directive _ .percent => text = [ascii '%']
  | .directive sharps .hexadecimal =>
    if sharps = 0 then Numeral 16 arg.toNat text
    else text.length = 8 ∧ read digit_value 16 text = some arg.toNat
  | .directive _ .unsigned => Numeral 10 arg.toNat text
  | .directive _ .signed => read_signed text = some arg.toInt
  | .directive _ .char => text = [arg.setWidth 8]
  | .directive _ .string => CString (pointer mem arg) 0 text
  | .directive _ (.other _ _) => text = []

/-- The texts are right for the pieces, whose arguments are those from `esp` on. -/
def Shown (source : Source) : (esp : Nat) → List Piece → List (List Byte) → Prop
  | _, [], texts => texts = []
  | esp, piece :: pieces, texts => ∃ text rest, texts = text :: rest ∧ Shows source.mem (source.args esp) text piece ∧
      Shown source (esp + piece.takes) pieces rest

/-- An argument that is printed as a string points to one. -/
def Points (mem : Mem) (arg : Word) : Piece → Prop
  | .directive _ .string => ∃ text, CString (pointer mem arg) 0 text
  | _ => True

def Pointed (source : Source) : (esp : Nat) → List Piece → Prop
  | _, [] => True
  | esp, piece :: pieces => Points source.mem (source.args esp) piece ∧ Pointed source (esp + piece.takes) pieces

/-- All stores are inside their buffers. -/
def Contained (p : Printer S) : Prop := ∀ store ∈ p.stores, 0 ≤ store.2 ∧ store.2 < store.1

/-! ### Conversions -/

variable {k : Call S} {p p' p'' : Printer S} {text : List Byte} {fuel : Nat}

/-- The text is printed, that many arguments are used up, and nothing is stored
    outside a buffer. -/
structure Prints (k : Call S) (text : List Byte) (takes : Nat) (p p' : Printer S) : Prop where
  out : p'.out = text.foldl (fun out c => k.put c out) p.out
  esp : p'.esp = p.esp + takes
  contained : Contained p → Contained p'

theorem Prints.trans {text' : List Byte} {m n : Nat} (first : Prints k text m p p') (second : Prints k text' n p' p'') :
    Prints k (text ++ text') (m + n) p p'' :=
  ⟨by rw [second.out,first.out,List.foldl_append],by rw [second.esp,first.esp,Nat.add_assoc],
    fun contained => second.contained (first.contained contained)⟩

theorem puts_loop_prints {put : Byte → S → S} {chars : Buffer} {s : Int} {index : Nat} {out : S}
    (string : CString chars (s + index) text) (enough : text.length < fuel) :
    puts_loop put chars s fuel index out = some (index + text.length,text.foldl (fun out c => put c out) out) := by
  induction text generalizing index out fuel with
  | nil =>
    obtain ⟨fuel,rfl⟩ : ∃ more, fuel = more + 1 := ⟨fuel - 1,by simp at enough; omega⟩
    have nul : chars (s + index) = 0 := string
    rw [puts_loop,if_neg (not_not.mpr nul)]
    rfl
  | cons c text ih =>
    obtain ⟨fuel,rfl⟩ : ∃ more, fuel = more + 1 := ⟨fuel - 1,by simp at enough; omega⟩
    obtain ⟨char,nonzero,rest⟩ := string
    have next : s + index + 1 = s + (index + 1 : Nat) := by push_cast; omega
    have length : index + 1 + text.length = index + (c :: text).length := by rw [List.length_cons]; omega
    rw [puts_loop,if_pos (by rwa [char]),ih (next ▸ rest) (by simp at enough; omega),length,char,List.foldl_cons]

theorem puts_prints {put : Byte → S → S} {chars : Buffer} {s : Int} {out : S} (string : CString chars s text)
    (enough : text.length < fuel) :
    puts put fuel chars s out = some (text.length,text.foldl (fun out c => put c out) out) := by
  rw [puts,puts_loop_prints (by simpa using string) enough,Nat.zero_add]

theorem inside_of_writes {low high size : Int} {b b' : CharBuf} (writes : Writes low high b b') (above : 0 ≤ low)
    (below : high ≤ size) (inside : ∀ i ∈ b.stores, 0 ≤ i ∧ i < size) : ∀ i ∈ b'.stores, 0 ≤ i ∧ i < size := by
  obtain ⟨added,stores,within⟩ := writes.stores
  intro i stored
  rw [stores] at stored
  rcases List.mem_append.mp stored with before | new
  · exact inside i before
  · have := within i new
    omega

theorem conv_buf_inside {size : Int} : ∀ i ∈ (conv_buf k p).stores, 0 ≤ i ∧ i < size :=
  fun _ stored => absurd stored List.not_mem_nil

theorem print_buf_prints {size s : Int} {b : CharBuf} (string : CString b.chars s text) (enough : text.length < fuel)
    (inside : ∀ i ∈ b.stores, 0 ≤ i ∧ i < size) : ∃ p', print_buf k fuel size b s p = some p' ∧ Prints k text 1 p p' := by
  rw [print_buf,puts_prints string enough]
  refine ⟨_,rfl,rfl,rfl,?_⟩
  intro contained store stored
  rcases List.mem_append.mp stored with before | new
  · exact contained store before
  · obtain ⟨i,here,rfl⟩ := List.mem_map.mp new
    exact inside i here

/-- A number converted at index `s` of an empty buffer. -/
theorem itoa_empty {r size : Int} {radix : Nat} (is_radix : r = radix) (large : 1 < radix) (small : radix ≤ 36)
    (enough : 34 ≤ fuel) (value : Word) {s : Int} (above : 0 ≤ s) (fits : s + 33 ≤ size) {b : CharBuf}
    (inside : ∀ i ∈ b.stores, 0 ≤ i ∧ i < size) : ∃ b', itoa fuel value s r b = some b' ∧
      CString b'.chars s (numeral radix value.toNat) ∧ (∀ i < s, b'.chars i = b.chars i) ∧
      ∀ i ∈ b'.stores, 0 ≤ i ∧ i < size := by
  obtain ⟨b',converted,string,writes⟩ := itoa_writes is_radix large small enough value s b
  have length := numeral_word large value
  exact ⟨b',converted,string,fun i before => writes.kept i (.inl before),
    inside_of_writes writes above (by omega) inside⟩

theorem print_u_prints (enough : 34 ≤ fuel) :
    ∃ p', print_u k fuel p = some p' ∧ Prints k (numeral 10 (k.args p.esp).toNat) 1 p p' := by
  have length := numeral_word (show 1 < 10 by decide) (k.args p.esp)
  obtain ⟨b,converted,string,-,inside⟩ := itoa_empty (show (10 : Int) = (10 : Nat) from rfl) (by decide) (by decide)
    enough (k.args p.esp) le_rfl (show (0 : Int) + 33 ≤ 36 by decide) (conv_buf_inside (k := k) (p := p))
  rw [print_u,converted]
  exact print_buf_prints string (by omega) inside

/-- The text of a signed number. -/
def signed_numeral (value : Word) : List Byte :=
  if value.toInt < 0 then ascii '-' :: numeral 10 (-value).toNat else numeral 10 value.toNat

theorem print_d_prints (enough : 34 ≤ fuel) :
    ∃ p', print_d k fuel p = some p' ∧ Prints k (signed_numeral (k.args p.esp)) 1 p p' := by
  rw [print_d,signed_numeral]
  by_cases negative : (k.args p.esp).toInt < 0
  · rw [if_pos negative,if_pos negative]
    have length := numeral_word (show 1 < 10 by decide) (-k.args p.esp)
    have first : ∀ i ∈ ((conv_buf k p).put 0 (ascii '-')).stores, 0 ≤ i ∧ i < 36 := by
      intro i stored
      obtain rfl := List.mem_singleton.mp stored
      decide
    obtain ⟨b,converted,string,kept,inside⟩ := itoa_empty (show (10 : Int) = (10 : Nat) from rfl) (by decide) (by decide)
      enough (-k.args p.esp) (show (0 : Int) ≤ 1 by decide) (show (1 : Int) + 33 ≤ 36 by decide) first
    rw [converted]
    refine print_buf_prints ⟨?_,by decide,string⟩ (by rw [List.length_cons]; omega) inside
    rw [kept 0 (by decide),put_same]
  · rw [if_neg negative,if_neg negative]
    have length := numeral_word (show 1 < 10 by decide) (k.args p.esp)
    obtain ⟨b,converted,string,-,inside⟩ := itoa_empty (show (10 : Int) = (10 : Nat) from rfl) (by decide) (by decide)
      enough (k.args p.esp) le_rfl (show (0 : Int) + 33 ≤ 36 by decide) (conv_buf_inside (k := k) (p := p))
    rw [converted]
    exact print_buf_prints string (by omega) inside

/-- The text of a number in eight digits. -/
def padded_numeral (value : Word) : List Byte :=
  List.replicate (8 - (numeral 16 value.toNat).length) (ascii '0') ++ numeral 16 value.toNat

theorem hex_length (value : Word) : (numeral 16 value.toNat).length ≤ 8 :=
  numeral_length (by decide) (by decide) (lt_of_lt_of_eq value.isLt (by decide))

theorem padded_length (value : Word) : (padded_numeral value).length = 8 := by
  have length := hex_length value
  rw [padded_numeral,List.length_append,List.length_replicate]
  omega

theorem padded_reads (value : Word) : read digit_value 16 (padded_numeral value) = some value.toNat := by
  have zeros (n : Nat) : List.replicate n (ascii '0') = (List.replicate n 0).map lookup := by
    rw [List.map_replicate]
    rfl
  have valid (n : Nat) : ∀ d ∈ List.replicate n 0 ++ written 16 value.toNat, d < 16 := by
    intro d digit
    rcases List.mem_append.mp digit with zero | digit
    · rw [List.eq_of_mem_replicate zero]
      decide
    · exact written_lt (by decide) d digit
  rw [padded_numeral,zeros,numeral,← List.map_append,
    read_encoded (fun d digit => (lookup_digit d (by omega)).1) (valid _) (by simp [written_ne_nil]),
    value_zeros,value_written]

/-- A minus sign is no digit. -/
theorem numeral_unsigned (n : Nat) : (numeral 10 n).head? ≠ some (ascii '-') := by
  intro head
  obtain ⟨d,digit,is_minus⟩ := List.mem_map.mp (List.mem_of_mem_head? head)
  have small := written_lt (by decide) d digit
  have value := (lookup_digit d (by omega)).1
  rw [is_minus] at value
  cases value

theorem signed_reads (value : Word) : read_signed (signed_numeral value) = some value.toInt := by
  have reads (n : Nat) := (numeral_reads (n := n) (show 1 < 10 by decide) (by decide)).reads
  have bound := value.isLt
  rw [signed_numeral]
  by_cases negative : value.toInt < 0
  · have wraps : (-value).toNat = 4294967296 - value.toNat := by
      rw [BitVec.toInt_eq_toNat_cond] at negative
      rw [BitVec.toNat_neg]
      omega
    rw [if_pos negative,read_signed,if_pos List.head?_cons,List.tail_cons,reads,Option.map_some,wraps]
    rw [BitVec.toInt_eq_toNat_cond] at negative ⊢
    congr 1
    split at negative <;> omega
  · rw [if_neg negative,read_signed,if_neg (numeral_unsigned _),reads,Option.map_some,Int.ofNat_eq_natCast]
    rw [BitVec.toInt_eq_toNat_cond] at negative ⊢
    congr 1
    split at negative <;> omega

/-- The loop stores zeros from `i` up to the eighth character. -/
theorem pad_zeros (i : Nat) (b : CharBuf) (low : i ≤ 8) : Writes i 8 b (pad i b) ∧
    ∀ j : Nat, i ≤ j → j < 8 → (pad i b).chars j = ascii '0' := by
  fun_induction pad i b with
  | case1 i b more ih =>
    obtain ⟨writes,zeros⟩ := ih (by omega)
    refine ⟨(writes_put le_rfl (by omega) _).trans (writes.wider (by omega) le_rfl),?_⟩
    intro j above below
    by_cases here : j = i
    · rw [here,writes.kept _ (.inl (by omega)),put_same]
    · exact zeros j (by omega) below
  | case2 i b done => exact ⟨.refl _ _ b,fun j above below => absurd below (by omega)⟩

theorem cstring_zeros {chars : Buffer} (string : CString chars 8 text) (zeros : Nat) (few : zeros ≤ 8)
    (filled : ∀ j : Nat, 8 - zeros ≤ j → j < 8 → chars j = ascii '0') :
    CString chars (8 - zeros : Nat) (List.replicate zeros (ascii '0') ++ text) := by
  induction zeros with
  | zero => exact string
  | succ zeros ih =>
    have next : ((8 - (zeros + 1) : Nat) : Int) + 1 = (8 - zeros : Nat) := by omega
    refine ⟨filled _ le_rfl (by omega),by decide,?_⟩
    rw [next]
    exact ih (by omega) (fun j above below => filled j (by omega) below)

theorem print_x_prints (enough : 34 ≤ fuel) (alternate : Bool) : ∃ p', print_x k fuel alternate p = some p' ∧
    Prints k (if alternate = false then numeral 16 (k.args p.esp).toNat else padded_numeral (k.args p.esp)) 1 p p' := by
  have length := hex_length (k.args p.esp)
  rw [print_x]
  by_cases plain : alternate = false
  · rw [if_pos plain,if_pos plain]
    obtain ⟨b,converted,string,-,inside⟩ := itoa_empty (show (16 : Int) = (16 : Nat) from rfl) (by decide) (by decide)
      enough (k.args p.esp) le_rfl (show (0 : Int) + 33 ≤ 64 by decide) (conv_buf_inside (k := k) (p := p))
    rw [converted]
    exact print_buf_prints string (by omega) inside
  · rw [if_neg plain,if_neg plain]
    obtain ⟨b,converted,string,-,inside⟩ := itoa_empty (show (16 : Int) = (16 : Nat) from rfl) (by decide) (by decide)
      enough (k.args p.esp) (show (0 : Int) ≤ 8 by decide) (show (8 : Int) + 33 ≤ 64 by decide)
      (conv_buf_inside (k := k) (p := p))
    obtain ⟨writes,zeros⟩ := pad_zeros (numeral 16 (k.args p.esp).toNat).length b length
    have digits : CString (pad (numeral 16 (k.args p.esp).toNat).length b).chars 8 (numeral 16 (k.args p.esp).toNat) :=
      cstring_congr (fun i above => writes.kept i (.inr above)) string
    have eight := cstring_zeros digits (8 - (numeral 16 (k.args p.esp).toNat).length) (by omega)
      (fun j above below => zeros j (by omega) below)
    rw [show 8 - (8 - (numeral 16 (k.args p.esp).toNat).length) = (numeral 16 (k.args p.esp).toNat).length by omega]
      at eight
    rw [converted,Option.bind_some,strlen_eq string (by omega),Option.bind_some]
    refine print_buf_prints eight ?_ (inside_of_writes writes (by omega) (by decide) inside)
    rw [padded_length]
    omega

/-! ### The switch -/

/-- Each `#` asks for the alternate form again. -/
theorem switch_sharps (n : Nat) {fuel : Nat} (alternate : Bool) {buf : Int} {rest : List Byte} (p : Printer S)
    (string : CString k.format buf (List.replicate n (ascii '#') ++ rest)) : CString k.format (buf + n) rest ∧
      ∃ reads, format_char_switch k (fuel + n) alternate buf p =
        format_char_switch k fuel (alternate || decide (0 < n)) (buf + n) { p with reads := reads } := by
  induction n generalizing alternate buf p with
  | zero =>
    refine ⟨by simpa using string,p.reads,?_⟩
    simp
  | succ n ih =>
    obtain ⟨char,-,later⟩ := string
    obtain ⟨string,reads,skipped⟩ := ih true { p with reads := p.reads ++ [buf] } later
    have next : buf + 1 + n = buf + (n + 1 : Nat) := by push_cast; omega
    rw [next] at string skipped
    refine ⟨string,reads,?_⟩
    rw [← Nat.add_assoc,format_char_switch,char]
    dsimp only
    rw [if_neg (by decide),if_pos rfl,skipped]
    simp

/-- What the switch does for a conversion. -/
def converted (k : Call S) (fuel : Nat) (alternate : Bool) (p : Printer S) : Conv → Option (Printer S)
  | .percent => some { p with out := k.put (ascii '%') p.out }
  | .hexadecimal => print_x k fuel alternate p
  | .unsigned => print_u k fuel p
  | .signed => print_d k fuel p
  | .char => some (print_c k p)
  | .string => print_s k fuel p
  | .other _ _ => some p

/-- The switch reads one character and takes the branch for it. -/
theorem switch_converts (fuel : Nat) (alternate : Bool) {buf : Int} (p : Printer S) {conv : Conv}
    (letter : k.format buf = conv.char_of) : format_char_switch k (fuel + 1) alternate buf p =
      (converted k fuel alternate { p with reads := p.reads ++ [buf] } conv).map fun p => (buf,p) := by
  rw [format_char_switch,letter]
  dsimp only
  cases conv with
  | percent => exact if_pos rfl
  | hexadecimal =>
    rw [if_neg (by decide),if_neg (by decide)]
    exact if_pos rfl
  | unsigned =>
    rw [if_neg (by decide),if_neg (by decide),if_neg (by decide)]
    exact if_pos rfl
  | signed =>
    rw [if_neg (by decide),if_neg (by decide),if_neg (by decide),if_neg (by decide)]
    exact if_pos rfl
  | char =>
    rw [if_neg (by decide),if_neg (by decide),if_neg (by decide),if_neg (by decide),if_neg (by decide)]
    exact if_pos rfl
  | string =>
    rw [if_neg (by decide),if_neg (by decide),if_neg (by decide),if_neg (by decide),if_neg (by decide),
      if_neg (by decide)]
    exact if_pos rfl
  | other c unknown =>
    simp only [List.mem_cons,List.map_cons,List.map_nil,List.not_mem_nil,or_false,not_or] at unknown
    obtain ⟨-,percent,sharp,hexadecimal,unsigned,signed,char,string⟩ := unknown
    rw [Conv.char_of,if_neg percent,if_neg sharp,if_neg hexadecimal,if_neg unsigned,if_neg signed,if_neg char,
      if_neg string]
    rfl

theorem print_s_prints (string : CString (pointer k.mem (k.args p.esp)) 0 text) (enough : text.length < fuel) :
    ∃ p', print_s k fuel p = some p' ∧ Prints k text 1 p p' := by
  rw [print_s,puts_prints string enough]
  exact ⟨_,rfl,rfl,rfl,id⟩

/-- The text of a directive depends on its argument only, and is what `puts` or
    `putc` prints for it. -/
theorem converted_prints (source : Source) (esp sharps : Nat) (conv : Conv)
    (points : Points source.mem (source.args esp) (.directive sharps conv)) :
    ∃ text, Shows source.mem (source.args esp) text (.directive sharps conv) ∧
      ∀ {S : Type} (k : Call S), k.toSource = source → ∀ fuel, text.length + 34 ≤ fuel → ∀ (p : Printer S), p.esp = esp →
        ∃ p', converted k fuel (decide (0 < sharps)) p conv = some p' ∧
          Prints k text (Piece.directive sharps conv).takes p p' := by
  cases conv with
  | percent =>
    refine ⟨[ascii '%'],rfl,?_⟩
    rintro S k rfl fuel enough p rfl
    exact ⟨_,rfl,rfl,rfl,id⟩
  | hexadecimal =>
    refine ⟨if decide (0 < sharps) = false then numeral 16 (source.args esp).toNat else padded_numeral (source.args esp),
      ?_,?_⟩
    · by_cases plain : sharps = 0
      · rw [Shows,if_pos plain,if_pos (by simp [plain])]
        exact numeral_reads (by decide) (by decide)
      · rw [Shows,if_neg plain,if_neg (by simp; omega)]
        exact ⟨padded_length _,padded_reads _⟩
    · rintro S k rfl fuel enough p rfl
      exact print_x_prints (by omega) (decide (0 < sharps))
  | unsigned =>
    refine ⟨numeral 10 (source.args esp).toNat,numeral_reads (by decide) (by decide),?_⟩
    rintro S k rfl fuel enough p rfl
    exact print_u_prints (by omega)
  | signed =>
    refine ⟨signed_numeral (source.args esp),signed_reads _,?_⟩
    rintro S k rfl fuel enough p rfl
    exact print_d_prints (by omega)
  | char =>
    refine ⟨[(source.args esp).setWidth 8],rfl,?_⟩
    rintro S k rfl fuel enough p rfl
    exact ⟨_,rfl,rfl,rfl,id⟩
  | string =>
    obtain ⟨text,string⟩ := points
    refine ⟨text,string,?_⟩
    rintro S k rfl fuel enough p rfl
    exact print_s_prints string (by omega)
  | other c unknown =>
    refine ⟨[],rfl,?_⟩
    rintro S k rfl fuel enough p rfl
    exact ⟨_,rfl,rfl,rfl,id⟩

/-! ### The loop over the format -/

/-- One turn of the outer loop takes one piece of the format. -/
theorem piece_prints (source : Source) (esp : Nat) (piece : Piece)
    (points : Points source.mem (source.args esp) piece) :
    ∃ text, Shows source.mem (source.args esp) text piece ∧
      ∀ {S : Type} (k : Call S), k.toSource = source → ∃ few, ∀ fuel, few ≤ fuel →
        ∀ (buf : Int) (p : Printer S) (rest : List Byte), p.esp = esp → CString k.format buf (piece.spelled ++ rest) →
          CString k.format (buf + piece.spelled.length) rest ∧
          ∃ p', scan k (fuel + 1) buf p = scan k fuel (buf + piece.spelled.length) p' ∧
            Prints k text piece.takes p p' := by
  cases piece with
  | plain c shown =>
    refine ⟨[c],rfl,?_⟩
    rintro S k rfl
    refine ⟨0,?_⟩
    rintro fuel - buf p rest rfl ⟨char,-,later⟩
    refine ⟨later,{ p with reads := p.reads ++ [buf], out := k.put c p.out },?_,rfl,rfl,id⟩
    rw [scan,char]
    dsimp only
    rw [if_neg shown.1,if_neg shown.2]
    rfl
  | directive sharps conv =>
    obtain ⟨text,shows,printing⟩ := converted_prints source esp sharps conv points
    refine ⟨text,shows,?_⟩
    rintro S k rfl
    refine ⟨text.length + 35 + sharps,?_⟩
    rintro fuel enough buf p rest rfl ⟨char,-,later⟩
    obtain ⟨more,rfl⟩ : ∃ more, fuel = more + 1 + sharps := ⟨fuel - 1 - sharps,by omega⟩
    have marked : CString k.format (buf + 1) (List.replicate sharps (ascii '#') ++ ([conv.char_of] ++ rest)) := by
      rw [← List.append_assoc]
      exact later
    obtain ⟨⟨letter,-,string⟩,reads,skipped⟩ := switch_sharps sharps false { p with reads := p.reads ++ [buf] } marked
    obtain ⟨p',printed,prints⟩ := printing k rfl more (by omega) { p with reads := reads ++ [buf + 1 + sharps] } rfl
    have length : ((Piece.directive sharps conv).spelled.length : Int) = 1 + sharps + 1 := by
      simp [Piece.spelled]
      omega
    have next : buf + (1 + sharps + 1) = buf + 1 + sharps + 1 := by omega
    rw [length,next]
    refine ⟨string,p',?_,prints.out,prints.esp,prints.contained⟩
    rw [scan,char]
    dsimp only
    rw [if_neg (by decide),if_pos rfl,skipped,Bool.false_or,switch_converts _ _ _ letter,printed]
    rfl

/-- A format made of pieces is printed piece by piece, and the loop ends at its NUL. -/
theorem scan_prints (source : Source) (pieces : List Piece) (esp : Nat) (pointed : Pointed source esp pieces) :
    ∃ texts, Shown source esp pieces texts ∧ ∀ {S : Type} (k : Call S), k.toSource = source →
      ∃ few, ∀ fuel, few ≤ fuel → ∀ (buf : Int) (p : Printer S), p.esp = esp →
        CString k.format buf (pieces.flatMap Piece.spelled) → ∃ p',
          scan k fuel buf p = some (buf + (pieces.flatMap Piece.spelled).length,p') ∧
          ∃ takes, Prints k texts.flatten takes p p' := by
  induction pieces generalizing esp with
  | nil =>
    refine ⟨[],rfl,?_⟩
    rintro S k rfl
    refine ⟨1,?_⟩
    intro fuel enough buf p _ string
    obtain ⟨more,rfl⟩ : ∃ more, fuel = more + 1 := ⟨fuel - 1,by omega⟩
    have nul : k.format buf = 0 := string
    refine ⟨{ p with reads := p.reads ++ [buf] },?_,0,rfl,rfl,id⟩
    rw [scan,if_pos nul]
    simp
  | cons piece pieces ih =>
    obtain ⟨text,shows,turn⟩ := piece_prints source esp piece pointed.1
    obtain ⟨texts,shown,loop⟩ := ih (esp + piece.takes) pointed.2
    refine ⟨text :: texts,⟨text,texts,rfl,shows,shown⟩,?_⟩
    intro S k same
    obtain ⟨few,turn⟩ := turn k same
    obtain ⟨few',loop⟩ := loop k same
    refine ⟨max few few' + 1,?_⟩
    intro fuel enough buf p start string
    obtain ⟨more,rfl⟩ : ∃ more, fuel = more + 1 := ⟨fuel - 1,by omega⟩
    obtain ⟨string,p',turned,prints⟩ := turn more (by omega) buf p _ start string
    obtain ⟨p'',ends,takes,prints'⟩ := loop more (by omega) _ p' (prints.esp.trans (by rw [start])) string
    refine ⟨p'',?_,piece.takes + takes,prints.trans prints'⟩
    rw [turned,ends,List.flatMap_cons,List.length_append]
    push_cast
    rw [Int.add_assoc]

/-! ### Numbers -/

/-- The call returns that count, has printed the texts one after another, and
    has stored to nothing outside its buffers. -/
def Outputs (put : Byte → S → S) (texts : List (List Byte)) (count : Int) (out : S)
    (result : Option (Int × Printer S)) : Prop :=
  ∃ p, result = some (count,p) ∧ p.out = texts.flatten.foldl (fun out c => put c out) out ∧ Contained p

theorem print_format_outputs {source : Source} {pieces : List Piece}
    (spelled : CString source.format 0 (pieces.flatMap Piece.spelled)) (pointed : Pointed source 0 pieces) :
    ∃ texts, Shown source 0 pieces texts ∧ ∀ {S : Type} (put : Byte → S → S) (stack : Nat → Buffer) (out : S),
      ∃ few, ∀ fuel, few ≤ fuel → Outputs put texts (i32 (pieces.flatMap Piece.spelled).length) out
        (print_format ⟨source,put,stack⟩ fuel out) := by
  obtain ⟨texts,shown,loop⟩ := scan_prints source pieces 0 pointed
  refine ⟨texts,shown,?_⟩
  intro S put stack out
  obtain ⟨few,loop⟩ := loop ⟨source,put,stack⟩ rfl
  refine ⟨few,?_⟩
  intro fuel enough
  obtain ⟨p,ends,takes,prints⟩ := loop fuel enough 0 ⟨out,0,[],[]⟩ rfl spelled
  refine ⟨p,?_,prints.out,prints.contained (fun store stored => absurd stored List.not_mem_nil)⟩
  rw [print_format,ends,Option.map_some,Int.zero_add]
  rfl

/-- `itoa` writes a number in any radix from 2 to 36 so that it reads back, in 33
    bytes at most. Whatever else is in a format, `printf` and `vprintf` print
    each number so that it reads back to the argument, in eight digits after a
    `#`, and stay inside their buffers. -/
theorem numbers_read_back {r : Int} (low : 2 ≤ r) (high : r ≤ 36) {source : Source} {pieces : List Piece}
    (spelled : CString source.format 0 (pieces.flatMap Piece.spelled)) (pointed : Pointed source 0 pieces) :
    (∀ fuel, 34 ≤ fuel → ∀ value buf b, ∃ b' text, itoa fuel value buf r b = some b' ∧
      CString b'.chars buf text ∧ Numeral r.toNat value.toNat text ∧ text.length + 1 ≤ 33 ∧
      Writes buf (buf + text.length + 1) b b') ∧
    ∃ texts, Shown source 0 pieces texts ∧
      (∀ stack c, ∃ few, ∀ fuel, few ≤ fuel →
        Outputs putc texts (i32 (pieces.flatMap Piece.spelled).length) c (printf fuel source stack c)) ∧
      ∀ stack term, ∃ few, ∀ fuel, few ≤ fuel →
        Outputs vputc texts (i32 (pieces.flatMap Piece.spelled).length) term (vprintf fuel source stack term) := by
  have large : 1 < r.toNat := by omega
  have small : r.toNat ≤ 36 := by omega
  refine ⟨?_,?_⟩
  · intro fuel enough value buf b
    obtain ⟨b',converted,string,writes⟩ := itoa_writes (show r = r.toNat by omega) large small enough value buf b
    have length := numeral_word large value
    exact ⟨b',_,converted,string,numeral_reads large small,by omega,writes⟩
  · obtain ⟨texts,shown,outputs⟩ := print_format_outputs spelled pointed
    exact ⟨texts,shown,fun stack c => outputs putc stack c,fun stack term => outputs vputc stack term⟩

/-- The smallest number, to be printed by `%d`. -/
def smallest : Source where
  mem := fun _ => 0
  format := fun i => [ascii '%',ascii 'd'].getD i.toNat 0
  args := fun _ => 0x80000000

theorem numbers_read_back_smallest : ∃ texts, Shown smallest 0 [.directive 0 .signed] texts ∧
    ∀ stack c, ∃ few, ∀ fuel, few ≤ fuel → Outputs putc texts 2 c (printf fuel smallest stack c) := by
  have spelled : CString smallest.format 0 ([Piece.directive 0 .signed].flatMap Piece.spelled) :=
    ⟨rfl,by decide,rfl,by decide,rfl⟩
  have pointed : Pointed smallest 0 [.directive 0 .signed] := ⟨trivial,trivial⟩
  obtain ⟨-,texts,shown,prints,-⟩ := numbers_read_back (r := 7) (by decide) (by decide) spelled pointed
  exact ⟨texts,shown,prints⟩

end Mp3Kernel.Printf

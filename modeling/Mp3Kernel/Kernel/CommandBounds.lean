import Mathlib.Data.Nat.Find
import Mp3Kernel.Kernel.Command

/-!
When the loop of `do_execute` stays inside its buffers. No index is compared
with anything, so what matters is how much of memory the loop takes for the
command: it goes on from the character after each run of spaces, whatever that
character is, and ends at the first terminator that it looks at.
-/
namespace Mp3Kernel.Command
open Mp3Kernel.Memory Mp3Kernel.Words

section
variable (command : Nat → Byte)

def Terminator (j : Nat) : Prop := command j = 0 ∨ command j = NEWLINE

instance (j : Nat) : Decidable (Terminator command j) := inferInstanceAs (Decidable (_ ∨ _))

/-- From the head of the loop on, each iteration leaves commandBufferIndex behind
    the character it copies, and takes no other index back. -/
def NeverWraps : Nat → Parse → Prop
  | 0, _ => True
  | fuel + 1, s =>
    let looked := { s with reads := s.reads ++ [s.commandBufferIndex] }
    ¬ Terminator command s.commandBufferIndex →
      ∀ i s', skip_spaces command s.commandBufferIndex (fuel + 1) = some i →
        parse_step command (fuel + 1) looked = some s' →
        (s'.commandBufferIndex = i + 1 ∧ s.argsBufferIndex ≤ s'.argsBufferIndex ∧ s.pgmNameIndex ≤ s'.pgmNameIndex) ∧
          NeverWraps fuel s'

/-- The parse comes to its end with every store inside its array, and no index
    wraps on the way. -/
def Bounded (programName argsBuffer : Nat → Byte) : Prop :=
  ∃ fuel, (parse_command command programName argsBuffer fuel).isSome = true ∧
    NeverWraps command fuel ⟨0,0,0,false,programName,argsBuffer,[]⟩

/-- A terminator that the loop looks at: the first character, or one that does
    not follow a space. -/
def Ends (n : Nat) : Prop :=
  Terminator command n ∧ (n = 0 ∨ command (n - 1) ≠ SPACE)

/-- The characters from index `j` on before index `n`. -/
def taken (j n : Nat) : List Byte := (List.range' j (n - j)).map command

end

/-- The text with each run of spaces shortened to one. -/
def squeezed : List Byte → List Byte
  | [] => []
  | c :: rest => if c = SPACE ∧ rest.head? = some SPACE then squeezed rest else c :: squeezed rest

/-- The stores to `programName`: the first word, and a 0 when a space ends it. -/
def name_stores (text : List Byte) : Nat :=
  (text.takeWhile (· ≠ SPACE)).length + if SPACE ∈ text then 1 else 0

/-- The stores to `argsBuffer` before its 0: what follows the first run of
    spaces. -/
def args_stores (text : List Byte) : Nat :=
  (squeezed ((text.dropWhile (· ≠ SPACE)).dropWhile (· = SPACE))).length

/-- The loop ends within 255 characters, and both buffers hold what it stores. -/
def FitsBuffers (command : Nat → Byte) : Prop :=
  ∃ n ≤ 255, Ends command n ∧ (∀ j < n, ¬ Ends command j) ∧
    name_stores (taken command 0 n) ≤ 32 ∧ args_stores (taken command 0 n) ≤ 127

variable {command : Nat → Byte} {text rest : List Byte} {s s' : Parse} {c : Byte}

/-! ### One iteration -/

/-- The loop before index `j`, with `p` characters stored to the name and `a` to
    the arguments. -/
structure Head (got : Bool) (j p a : Nat) (s : Parse) : Prop where
  command : s.commandBufferIndex = j
  name : s.pgmNameIndex = p
  args : s.argsBufferIndex = a
  got : s.gotProgamName = got

variable {got : Bool} {j p a m : Nat}

theorem head_looked (head : Head got j p a s) (reads : List Nat) : Head got j p a { s with reads := reads } :=
  ⟨head.command,head.name,head.args,head.got⟩

variable (command) in
/-- A copy stores to the buffer in turn, if it has room. -/
theorem copy_char_room (head : Head got j p a s) : if (if got then a < 128 else p < 32) then
      ∃ s', copy_char command s = some s' ∧
        Head got ((j + 1) % 256) (if got then p else p + 1) (if got then a + 1 else a) s'
    else copy_char command s = none := by
  obtain ⟨rfl,rfl,rfl,rfl⟩ := head
  cases got : s.gotProgamName with
  | true =>
    simp only [copy_char,got,put_args,↓reduceIte]
    split
    · exact ⟨_,rfl,rfl,rfl,by dsimp only; omega,rfl⟩
    · rfl
  | false =>
    simp only [copy_char,got,put_name,Bool.false_eq_true,↓reduceIte]
    split
    · exact ⟨_,rfl,rfl,by dsimp only; omega,rfl,rfl⟩
    · rfl

theorem end_word_room (head : Head got j p a s) : if (if got then a < 128 else p < 32) then
      ∃ s', end_word s = some s' ∧ Head true j (if got then p else p + 1) (if got then a + 1 else a) s'
    else end_word s = none := by
  obtain ⟨rfl,rfl,rfl,rfl⟩ := head
  cases got : s.gotProgamName with
  | true =>
    simp only [end_word,got,put_args,↓reduceIte]
    split
    · exact ⟨_,rfl,rfl,rfl,by dsimp only; omega,rfl⟩
    · rfl
  | false =>
    simp only [end_word,got,put_name,Bool.false_eq_true,↓reduceIte]
    split
    · exact ⟨_,rfl,rfl,by dsimp only; omega,rfl,rfl⟩
    · rfl

/-- The first character from index `i` on that is no space stands at `k`. -/
def Skips (command : Nat → Byte) (i k : Nat) : Prop :=
  i ≤ k ∧ (∀ l, i ≤ l → l < k → command l = SPACE) ∧ command k ≠ SPACE

theorem skips_unique {i k l : Nat} (skips : Skips command i k) (skips' : Skips command i l) : k = l := by
  obtain ⟨low,spaces,stop⟩ := skips
  obtain ⟨low',spaces',stop'⟩ := skips'
  by_contra other
  rcases Nat.lt_or_gt_of_ne other with below | above
  · exact stop (spaces' k low below)
  · exact stop' (spaces l low' above)

theorem skip_spaces_skips {i k : Nat} (skips : Skips command i k) (enough : k < i + m) :
    skip_spaces command i m = some k := by
  obtain ⟨low,spaces,stop⟩ := skips
  have found := skip_spaces_run (m := m) (k - i) (fun l below => spaces (i + l) (by omega) (by omega))
    (by rwa [show i + (k - i) = k from by omega]) (by omega)
  rwa [show i + (k - i) = k from by omega] at found

/-- The stores of one iteration to the name and to the arguments: a space and a
    character, or one of them. -/
def step_stores (got : Bool) (j k : Nat) : Nat × Nat :=
  if k = j then (if got then (0,1) else (1,0)) else (if got then (0,2) else (1,1))

/-- An iteration that skips to `k` succeeds exactly when its stores have room. -/
theorem parse_step_room (head : Head got j p a s) {k : Nat} (skipped : skip_spaces command j m = some k)
    (inside : k < 255) (name : p ≤ 32) (args : a ≤ 128) :
    if p + (step_stores got j k).1 ≤ 32 ∧ a + (step_stores got j k).2 ≤ 128 then
      ∃ s', parse_step command m s = some s' ∧
        Head (got || k != j) (k + 1) (p + (step_stores got j k).1) (a + (step_stores got j k).2) s'
    else parse_step command m s = none := by
  obtain rfl := head.command
  rw [parse_step,skipped,Option.bind_some]
  dsimp only
  by_cases stays : k = s.commandBufferIndex
  · subst stays
    rw [if_neg (not_not.mpr rfl),step_stores,if_pos rfl]
    have copied := copy_char_room command (head_looked head (s.reads ++
      List.range' s.commandBufferIndex (s.commandBufferIndex + 1 - s.commandBufferIndex)))
    rw [Nat.mod_eq_of_lt (by omega)] at copied
    cases got with
    | true => simpa [name,Nat.lt_succ_iff] using copied
    | false => simpa [args,Nat.lt_succ_iff] using copied
  · have word := end_word_room (head_looked head (s.reads ++
      List.range' s.commandBufferIndex (k + 1 - s.commandBufferIndex)))
    rw [if_pos stays,step_stores,if_neg stays]
    by_cases first : if got then a < 128 else p < 32
    · rw [if_pos first] at word
      obtain ⟨s₁,ended,after⟩ := word
      have moved : Head true k (if got then p else p + 1) (if got then a + 1 else a)
          { s₁ with commandBufferIndex := k % 256 } := ⟨Nat.mod_eq_of_lt (by omega),after.name,after.args,after.got⟩
      have copied := copy_char_room command moved
      rw [ended,Option.bind_some]
      rw [Nat.mod_eq_of_lt (by omega : k + 1 < 256)] at copied
      cases got with
      | true => simpa [name,stays,Nat.lt_succ_iff] using copied
      | false =>
        have named : p ≤ 31 := Nat.le_of_lt_succ (by simpa using first)
        have moves : (k != s.commandBufferIndex) = true := by simpa using stays
        simpa [named,moves,Nat.lt_succ_iff] using copied
    · rw [if_neg first] at word
      rw [word,Option.bind_none,if_neg]
      cases got with
      | true =>
        simp only [↓reduceIte] at first ⊢
        omega
      | false =>
        simp only [Bool.false_eq_true,↓reduceIte] at first ⊢
        omega

/-- An iteration that succeeds had room for its stores. -/
theorem parse_step_stored (head : Head got j p a s) {k : Nat} (skipped : skip_spaces command j m = some k)
    (inside : k < 255) (name : p ≤ 32) (args : a ≤ 128) (stepped : parse_step command m s = some s') :
    p + (step_stores got j k).1 ≤ 32 ∧ a + (step_stores got j k).2 ≤ 128 ∧
      Head (got || k != j) (k + 1) (p + (step_stores got j k).1) (a + (step_stores got j k).2) s' := by
  have room := parse_step_room head skipped inside name args
  split at room
  · rename_i fits
    obtain ⟨s₁,same,after⟩ := room
    obtain rfl := Option.some.inj (same.symm.trans stepped)
    exact ⟨fits.1,fits.2,after⟩
  · rw [stepped] at room
    cases room

/-! ### The whole loop -/

/-- The loop goes from index `j` to its end at `n` with `p` stores to the name
    and `a` to the arguments. -/
inductive Loop (command : Nat → Byte) : Bool → Nat → Nat → Nat → Nat → Prop
  | stop {got : Bool} {j : Nat} (ends : Terminator command j) : Loop command got j j 0 0
  | step {got : Bool} {j k n p a : Nat} (goes_on : ¬ Terminator command j) (skips : Skips command j k)
      (rest : Loop command (got || k != j) (k + 1) n p a) :
      Loop command got j n ((step_stores got j k).1 + p) ((step_stores got j k).2 + a)

/-- The loop ends in that many iterations with every store in its array and no
    index wrapped. -/
def Safe (command : Nat → Byte) : Nat → Parse → Prop
  | 0, _ => False
  | fuel + 1, s =>
    if Terminator command s.commandBufferIndex then s.argsBufferIndex < 128
    else ∃ k s', skip_spaces command s.commandBufferIndex (fuel + 1) = some k ∧ k < 255 ∧
      parse_step command (fuel + 1) { s with reads := s.reads ++ [s.commandBufferIndex] } = some s' ∧ Safe command fuel s'

theorem loop_le {n : Nat} (loop : Loop command got j n p a) : j ≤ n := by
  induction loop with
  | stop ends => exact le_rfl
  | step goes_on skips rest ih =>
    have low := skips.1
    omega

theorem skip_spaces_more {i k : Nat} (more : Nat) (skipped : skip_spaces command i m = some k) :
    skip_spaces command i (m + more) = some k := by
  induction m generalizing i with
  | zero => cases skipped
  | succ m ih =>
    rw [Nat.add_right_comm,skip_spaces]
    rw [skip_spaces] at skipped
    split at skipped
    · rename_i space
      rw [if_pos space]
      exact ih skipped
    · rename_i stop
      rwa [if_neg stop]

theorem parse_step_more {fuel : Nat} (more : Nat) (stepped : parse_step command fuel s = some s') :
    parse_step command (fuel + more) s = some s' := by
  rw [parse_step,Option.bind_eq_some_iff] at stepped ⊢
  obtain ⟨k,skipped,rest⟩ := stepped
  exact ⟨k,skip_spaces_more more skipped,rest⟩

theorem safe_more {fuel : Nat} (more : Nat) (safe : Safe command fuel s) : Safe command (fuel + more) s := by
  induction fuel generalizing s with
  | zero => exact safe.elim
  | succ fuel ih =>
    rw [Nat.add_right_comm,Safe]
    rw [Safe] at safe
    split at safe
    · rename_i ends
      rwa [if_pos ends]
    · rename_i goes_on
      rw [if_neg goes_on]
      obtain ⟨k,s',skipped,inside,stepped,rest⟩ := safe
      refine ⟨k,s',?_,inside,?_,ih rest⟩
      · rw [Nat.add_right_comm]
        exact skip_spaces_more more skipped
      · rw [Nat.add_right_comm]
        exact parse_step_more more stepped

/-- A loop that ends is safe exactly when it ends within 255 characters and both
    arrays hold its stores. -/
theorem safe_iff {n p' a' : Nat} (loop : Loop command got j n p' a') (head : Head got j p a s) (index : j ≤ 255)
    (name : p ≤ 32) (args : a ≤ 128) :
    (∃ fuel, Safe command fuel s) ↔ n ≤ 255 ∧ p + p' ≤ 32 ∧ a + a' ≤ 127 := by
  induction loop generalizing s p a with
  | @stop got j ends =>
    have here := head.command
    have stored := head.args
    constructor
    · rintro ⟨_ | fuel,safe⟩
      · exact safe.elim
      · rw [Safe,if_pos (here ▸ ends)] at safe
        omega
    · rintro ⟨-,-,room⟩
      refine ⟨1,?_⟩
      rw [Safe,if_pos (here ▸ ends)]
      omega
  | @step got j k n p' a' goes_on skips rest ih =>
    obtain rfl := head.command
    have low := skips.1
    have high := loop_le rest
    have looked := head_looked head (s.reads ++ [s.commandBufferIndex])
    constructor
    · rintro ⟨_ | fuel,safe⟩
      · exact safe.elim
      · rw [Safe,if_neg goes_on] at safe
        obtain ⟨l,s',skipped,inside,stepped,later⟩ := safe
        obtain rfl : l = k := skips_unique (skip_spaces_some skipped) skips
        obtain ⟨names,argss,after⟩ := parse_step_stored looked skipped inside name args stepped
        have bounds := (ih after (by omega) names argss).mp ⟨fuel,later⟩
        omega
    · rintro ⟨short,names,argss⟩
      have skipped := skip_spaces_skips (m := k + 1) skips (by omega)
      have room := parse_step_room looked skipped (by omega) name args
      rw [if_pos (by omega)] at room
      obtain ⟨s₁,stepped,after⟩ := room
      obtain ⟨fuel,later⟩ := (ih after (by omega) (by omega) (by omega)).mpr (by omega)
      refine ⟨k + fuel + 1,?_⟩
      rw [Safe,if_neg goes_on]
      refine ⟨k,s₁,?_,by omega,?_,?_⟩
      · rw [Nat.add_right_comm]
        exact skip_spaces_more fuel skipped
      · rw [Nat.add_right_comm]
        exact parse_step_more fuel stepped
      · rw [Nat.add_comm]
        exact safe_more k later

/-- A safe loop comes to an end. -/
theorem loop_of_safe {fuel : Nat} (safe : Safe command fuel s) (head : Head got j p a s) (name : p ≤ 32)
    (args : a ≤ 128) : ∃ n p' a', Loop command got j n p' a' := by
  induction fuel generalizing s got j p a with
  | zero => exact safe.elim
  | succ fuel ih =>
    obtain rfl := head.command
    rw [Safe] at safe
    split at safe
    · rename_i ends
      exact ⟨_,0,0,.stop ends⟩
    · rename_i goes_on
      obtain ⟨k,s',skipped,inside,stepped,later⟩ := safe
      obtain ⟨names,argss,after⟩ := parse_step_stored (head_looked head (s.reads ++ [s.commandBufferIndex])) skipped inside
        name args stepped
      obtain ⟨n,p',a',loop⟩ := ih later after names argss
      exact ⟨n,_,_,.step goes_on (skip_spaces_some skipped) loop⟩

theorem copied_index (copied : copy_char command s = some s') : s'.commandBufferIndex < 256 := by
  rw [copy_char] at copied
  dsimp only at copied
  split at copied
  · rw [put_args] at copied
    split at copied
    · obtain rfl := Option.some.inj copied
      exact Nat.mod_lt _ (by decide)
    · cases copied
  · rw [put_name] at copied
    split at copied
    · obtain rfl := Option.some.inj copied
      exact Nat.mod_lt _ (by decide)
    · cases copied

theorem parse_step_index {fuel : Nat} (stepped : parse_step command fuel s = some s') : s'.commandBufferIndex < 256 := by
  rw [parse_step,Option.bind_eq_some_iff] at stepped
  obtain ⟨k,-,rest⟩ := stepped
  split at rest
  · rw [Option.bind_eq_some_iff] at rest
    obtain ⟨s₁,-,copied⟩ := rest
    exact copied_index copied
  · exact copied_index rest

theorem parse_succ (fuel : Nat) (s : Parse) : parse command (fuel + 1) s =
    if Terminator command s.commandBufferIndex then some { s with reads := s.reads ++ [s.commandBufferIndex] }
    else (parse_step command (fuel + 1) { s with reads := s.reads ++ [s.commandBufferIndex] }).bind (parse command fuel) := by
  rw [parse]
  dsimp only
  by_cases ends : Terminator command s.commandBufferIndex
  · rw [if_pos ends,if_neg]
    rintro ⟨zero,newline⟩
    exact ends.elim zero newline
  · rw [if_neg ends,if_pos (not_or.mp ends)]

/-- What the parse is asked for is that its loop is safe. -/
theorem safe_iff_parse {fuel : Nat} (head : Head got j p a s) (name : p ≤ 32) (args : a ≤ 128) :
    ((parse command fuel s).bind finish).isSome = true ∧ NeverWraps command fuel s ↔ Safe command fuel s := by
  induction fuel generalizing s got j p a with
  | zero => simp [parse,Safe]
  | succ fuel ih =>
    rw [parse_succ,NeverWraps,Safe]
    by_cases ends : Terminator command s.commandBufferIndex
    · rw [if_pos ends,if_pos ends,Option.bind_some,finish]
      simp [ends]
    · rw [if_neg ends,if_neg ends,Option.bind_assoc]
      obtain rfl := head.command
      have looked := head_looked head (s.reads ++ [s.commandBufferIndex])
      constructor
      · rintro ⟨some_,never⟩
        obtain ⟨last,completed⟩ := Option.isSome_iff_exists.mp some_
        obtain ⟨s₁,stepped,rest⟩ := Option.bind_eq_some_iff.mp completed
        obtain ⟨k,skipped,-⟩ := Option.bind_eq_some_iff.mp (parse_step.eq_def .. ▸ stepped)
        obtain ⟨⟨index,-,-⟩,later⟩ := never ends k s₁ skipped stepped
        have bound := parse_step_index stepped
        have inside : k < 255 := by omega
        obtain ⟨names,argss,after⟩ := parse_step_stored looked skipped inside name args stepped
        exact ⟨k,s₁,skipped,inside,stepped,(ih after names argss).mp ⟨by rw [rest]; rfl,later⟩⟩
      · rintro ⟨k,s₁,skipped,inside,stepped,later⟩
        obtain ⟨names,argss,after⟩ := parse_step_stored looked skipped inside name args stepped
        obtain ⟨some_,never⟩ := (ih after names argss).mpr later
        refine ⟨by rw [stepped,Option.bind_some]; exact some_,?_⟩
        intro _ l s₂ skipped' stepped'
        obtain rfl := Option.some.inj (skipped.symm.trans skipped')
        obtain rfl := Option.some.inj (stepped.symm.trans stepped')
        refine ⟨⟨after.command,?_,?_⟩,never⟩
        · rw [head.args,after.args]
          exact Nat.le_add_right ..
        · rw [head.name,after.name]
          exact Nat.le_add_right ..

/-! ### Where the loop ends and what it stores -/

theorem squeezed_char (char : c ≠ SPACE) (rest : List Byte) : squeezed (c :: rest) = c :: squeezed rest := by
  rw [squeezed,if_neg (fun both => char both.1)]

theorem squeezed_spaces (char : c ≠ SPACE) (rest : List Byte) (n : Nat) :
    squeezed (List.replicate (n + 1) SPACE ++ c :: rest) = SPACE :: c :: squeezed rest := by
  induction n with
  | zero =>
    rw [List.replicate_one,List.singleton_append,squeezed,if_neg,squeezed_char char]
    rintro ⟨-,next⟩
    exact char (Option.some.inj next)
  | succ n ih =>
    rw [List.replicate_succ,List.cons_append,squeezed,if_pos,ih]
    exact ⟨rfl,by simp [List.replicate_succ]⟩

theorem name_stores_char (char : c ≠ SPACE) (rest : List Byte) : name_stores (c :: rest) = 1 + name_stores rest := by
  have listed : SPACE ∈ c :: rest ↔ SPACE ∈ rest := by
    rw [List.mem_cons]
    exact or_iff_right char.symm
  rw [name_stores,List.takeWhile_cons_of_pos (by simpa using char),List.length_cons,if_congr listed rfl rfl,name_stores]
  omega

theorem name_stores_space (rest : List Byte) : name_stores (SPACE :: rest) = 1 := by
  rw [name_stores,List.takeWhile_cons_of_neg (by simp),if_pos List.mem_cons_self]
  rfl

theorem args_stores_char (char : c ≠ SPACE) (rest : List Byte) : args_stores (c :: rest) = args_stores rest := by
  rw [args_stores,List.dropWhile_cons_of_pos (by simpa using char),args_stores]

theorem args_stores_spaces (char : c ≠ SPACE) (rest : List Byte) (n : Nat) :
    args_stores (List.replicate (n + 1) SPACE ++ c :: rest) = 1 + (squeezed rest).length := by
  have skipped : ((List.replicate (n + 1) SPACE ++ c :: rest).dropWhile (· ≠ SPACE)).dropWhile (· = SPACE) =
      c :: rest := by
    rw [List.replicate_succ,List.cons_append,List.dropWhile_cons_of_neg (by simp),← List.cons_append,
      ← List.replicate_succ,List.dropWhile_append_of_pos (by simp),List.dropWhile_cons_of_neg (by simpa using char)]
  rw [args_stores,skipped,squeezed_char char,List.length_cons,Nat.add_comm]

theorem taken_skips {k n : Nat} (skips : Skips command j k) (before : k < n) :
    taken command j n = List.replicate (k - j) SPACE ++ command k :: taken command (k + 1) n := by
  obtain ⟨low,spaces,-⟩ := skips
  have run : (List.range' j (k - j)).map command = List.replicate (k - j) SPACE := by
    rw [List.eq_replicate_iff]
    refine ⟨by simp,?_⟩
    intro b listed
    obtain ⟨l,inside,rfl⟩ := List.mem_map.mp listed
    rw [List.mem_range'_1] at inside
    exact spaces l inside.1 (by omega)
  have split : List.range' j (n - j) = List.range' j (k - j) ++ k :: List.range' (k + 1) (n - (k + 1)) := by
    rw [← List.range'_succ,show k = j + (k - j) from by omega,show j + (k - j) - j = k - j from by omega,
      List.range'_append_1]
    congr 1
    omega
  rw [taken,split,List.map_append,run,List.map_cons]
  rfl

/-- The stores of a loop are those of the characters it takes. -/
theorem loop_stores {n : Nat} (loop : Loop command got j n p a) :
    p = (if got then 0 else name_stores (taken command j n)) ∧
      a = if got then (squeezed (taken command j n)).length else args_stores (taken command j n) := by
  induction loop with
  | @stop got j ends => cases got <;> simp [taken,name_stores,args_stores,squeezed]
  | @step got j k n p a goes_on skips rest ih =>
    have last := loop_le rest
    have char := skips.2.2
    obtain ⟨names,args⟩ := ih
    rw [taken_skips skips (by omega),step_stores]
    by_cases stays : k = j
    · subst stays
      rw [if_pos rfl,Nat.sub_self,List.replicate_zero,List.nil_append]
      cases got with
      | true =>
        simp only [Bool.true_or,↓reduceIte] at names args ⊢
        rw [squeezed_char char,List.length_cons]
        omega
      | false =>
        simp only [bne_self_eq_false,Bool.or_self,Bool.false_eq_true,↓reduceIte] at names args ⊢
        rw [names,args,name_stores_char char,args_stores_char char]
        exact ⟨rfl,Nat.zero_add _⟩
    · have moves : (k != j) = true := by simpa using stays
      obtain ⟨run,more⟩ : ∃ run, k - j = run + 1 := ⟨k - j - 1,by have := skips.1; omega⟩
      rw [moves,Bool.or_true] at names args
      simp only [↓reduceIte] at names args
      rw [if_neg stays,more]
      cases got with
      | true =>
        simp only [↓reduceIte]
        rw [squeezed_spaces char,List.length_cons,List.length_cons]
        omega
      | false =>
        simp only [Bool.false_eq_true,↓reduceIte]
        rw [names,args,args_stores_spaces char,List.replicate_succ,List.cons_append,name_stores_space]
        exact ⟨rfl,rfl⟩

/-- The loop ends at the first terminator that it looks at, -/
theorem loop_ends {n : Nat} (loop : Loop command got j n p a) (start : j = 0 ∨ command (j - 1) ≠ SPACE) :
    Ends command n ∧ ∀ l, j ≤ l → l < n → ¬ Ends command l := by
  induction loop with
  | stop ends => exact ⟨⟨ends,start⟩,fun l low high => by omega⟩
  | @step got j k n p a goes_on skips rest ih =>
    obtain ⟨low,spaces,stop⟩ := skips
    obtain ⟨ends,before⟩ := ih (.inr (by simpa using stop))
    refine ⟨ends,?_⟩
    rintro l from_ below ⟨terminator,after⟩
    by_cases first : l = j
    · exact goes_on (first ▸ terminator)
    · by_cases skipped : l ≤ k
      · exact after.elim (by omega) (fun char => char (spaces (l - 1) (by omega) (by omega)))
      · exact before l (by omega) below ⟨terminator,after⟩

/-- if there is one. -/
theorem loop_exists {n : Nat} (ends : Ends command n) (got : Bool) (j : Nat) (low : j ≤ n)
    (start : j = 0 ∨ command (j - 1) ≠ SPACE) (before : ∀ l, j ≤ l → l < n → ¬ Ends command l) :
    ∃ p a, Loop command got j n p a := by
  induction left : n - j using Nat.strong_induction_on generalizing got j with
  | _ left ih =>
    by_cases terminator : Terminator command j
    · obtain rfl : j = n := by
        by_contra other
        exact before j le_rfl (by omega) ⟨terminator,start⟩
      exact ⟨0,0,.stop terminator⟩
    · have more : j < n := by
        by_contra none_
        obtain rfl : j = n := by omega
        exact terminator ends.1
      have last : j ≤ n - 1 ∧ command (n - 1) ≠ SPACE := ⟨by omega,ends.2.resolve_left (by omega)⟩
      have exists_ : ∃ k, j ≤ k ∧ command k ≠ SPACE := ⟨n - 1,last⟩
      have found := Nat.find_spec exists_
      have least := Nat.find_min' exists_ last
      have skips : Skips command j (Nat.find exists_) := by
        refine ⟨found.1,?_,found.2⟩
        intro l from_ below
        by_contra char
        exact Nat.find_min exists_ below ⟨from_,char⟩
      obtain ⟨p,a,rest⟩ := ih (n - (Nat.find exists_ + 1)) (by omega) (got || Nat.find exists_ != j)
        (Nat.find exists_ + 1) (by omega) (.inr (by simpa using found.2))
        (fun l from_ below => before l (by omega) below) rfl
      exact ⟨_,_,.step terminator skips rest⟩

variable (command) in
theorem bounded_iff_safe (programName argsBuffer : Nat → Byte) : Bounded command programName argsBuffer ↔
    ∃ fuel, Safe command fuel ⟨0,0,0,false,programName,argsBuffer,[]⟩ := by
  have head : Head false 0 0 0 ⟨0,0,0,false,programName,argsBuffer,[]⟩ := ⟨rfl,rfl,rfl,rfl⟩
  exact exists_congr fun fuel => safe_iff_parse head (by decide) (by decide)

theorem fits_of_bounded {programName argsBuffer : Nat → Byte} (bounded : Bounded command programName argsBuffer) :
    FitsBuffers command := by
  have head : Head false 0 0 0 ⟨0,0,0,false,programName,argsBuffer,[]⟩ := ⟨rfl,rfl,rfl,rfl⟩
  obtain ⟨fuel,safe⟩ := (bounded_iff_safe command programName argsBuffer).mp bounded
  obtain ⟨n,p,a,loop⟩ := loop_of_safe safe head (by decide) (by decide)
  obtain ⟨short,name,args⟩ := (safe_iff loop head (by decide) (by decide) (by decide)).mp ⟨fuel,safe⟩
  obtain ⟨ends,before⟩ := loop_ends loop (.inl rfl)
  obtain ⟨rfl,rfl⟩ := loop_stores loop
  simp only [Bool.false_eq_true,↓reduceIte] at name args
  exact ⟨n,short,ends,fun l below => before l (Nat.zero_le l) below,by omega,by omega⟩

/-- The loop of `do_execute` ends with its stores in bounds and its indices
    unwrapped exactly when it ends within 255 characters that fit the buffers. -/
theorem parse_bounded_iff (programName argsBuffer : Nat → Byte) :
    Bounded command programName argsBuffer ↔ FitsBuffers command := by
  refine ⟨fits_of_bounded,?_⟩
  rintro ⟨n,short,ends,before,name,args⟩
  have head : Head false 0 0 0 ⟨0,0,0,false,programName,argsBuffer,[]⟩ := ⟨rfl,rfl,rfl,rfl⟩
  obtain ⟨p,a,loop⟩ := loop_exists ends false 0 (Nat.zero_le n) (.inl rfl) (fun l _ below => before l below)
  obtain ⟨rfl,rfl⟩ := loop_stores loop
  refine (bounded_iff_safe command programName argsBuffer).mpr
    ((safe_iff loop head (by decide) (by decide) (by decide)).mpr ?_)
  simp only [Bool.false_eq_true,↓reduceIte]
  omega

/-- 33 letters and a NUL. -/
def long_name : Nat → Byte := fun i => if i < 33 then 97 else 0

theorem long_name_overflows : long_name 33 = 0 ∧ ¬ Bounded long_name (fun _ => 0) (fun _ => 0) := by
  refine ⟨rfl,?_⟩
  intro bounded
  obtain ⟨n,-,⟨terminator,-⟩,before,name,-⟩ := fits_of_bounded bounded
  have letters (j : Nat) (below : j < 33) : ¬ Terminator long_name j := by
    rw [Terminator,long_name,if_pos below]
    decide
  have ends : Ends long_name 33 := ⟨.inl rfl,.inr (by decide)⟩
  obtain rfl : n = 33 := by
    by_contra other
    rcases Nat.lt_or_gt_of_ne other with below | above
    · exact letters n below terminator
    · exact before 33 above ends
  exact absurd name (by decide)

end Mp3Kernel.Command

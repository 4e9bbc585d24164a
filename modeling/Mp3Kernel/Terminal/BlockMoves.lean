import Mp3Kernel.Lib.Copy
import Mp3Kernel.Terminal.Console

/-!
The block moves of lib.c, instruction by instruction: `memset` and `memcpy`
first go bytewise to an aligned address and then by words, `memmove` chooses its
direction. They do to memory what the screen's own `memmove` and `memcpy` do to
buffers, so that scrolling and switching the display are what the screen model
says.
-/
namespace Mp3Kernel.BlockMoves
open Mp3Kernel.Memory Mp3Kernel.Copy

/-! ### memset -/

/-- `rep stosl`. -/
def rep_stosl (eax : Word) : (ecx edi : Nat) → Mem → Mem
  | 0, _, m => m
  | ecx+1, edi, m => rep_stosl eax ecx (edi + 4) (store32 m edi eax)

def memset_bottom (al : Byte) : (edx edi : Nat) → Mem → Mem
  | 0, _, m => m
  | edx+1, edi, m => memset_bottom al edx (edi + 1) (Function.update m edi al)

def memset_aligned (eax : Word) (ecx edi : Nat) (m : Mem) : Mem :=
  let edx := ecx % 4
  let m := rep_stosl eax (ecx / 4) edi m
  memset_bottom (eax.setWidth 8) edx (edi + ecx / 4 * 4) m

def memset_top (eax : Word) : (ecx edi : Nat) → Mem → Mem
  | 0, _, m => m
  | ecx+1, edi, m =>
    if edi % 4 = 0 then memset_aligned eax (ecx + 1) edi m
    else memset_top eax ecx (edi + 1) (Function.update m edi (eax.setWidth 8))

/-- The byte is repeated in all of `eax`. -/
def memset (s : Nat) (c : Word) (n : Nat) (m : Mem) : Mem :=
  let c := c &&& 0xFF
  memset_top (c <<< 24 ||| c <<< 16 ||| c <<< 8 ||| c) n s m

/-! ### memcpy -/

/-- `rep movsl`, forward. -/
def rep_movsl : (ecx edi esi : Nat) → Mem → Mem
  | 0, _, _, m => m
  | ecx+1, edi, esi, m => rep_movsl ecx (edi + 4) (esi + 4) (store32 m edi (load32 m esi))

def memcpy_bottom : (edx edi esi : Nat) → Mem → Mem
  | 0, _, _, m => m
  | edx+1, edi, esi, m => memcpy_bottom edx (edi + 1) (esi + 1) (Function.update m edi (m esi))

def memcpy_aligned (ecx edi esi : Nat) (m : Mem) : Mem :=
  let edx := ecx % 4
  let m := rep_movsl (ecx / 4) edi esi m
  memcpy_bottom edx (edi + ecx / 4 * 4) (esi + ecx / 4 * 4) m

def memcpy_top : (ecx edi esi : Nat) → Mem → Mem
  | 0, _, _, m => m
  | ecx+1, edi, esi, m =>
    if edi % 4 = 0 then memcpy_aligned (ecx + 1) edi esi m
    else memcpy_top ecx (edi + 1) (esi + 1) (Function.update m edi (m esi))

def memcpy (dest src n : Nat) (m : Mem) : Mem := memcpy_top n dest src m

/-! ### memmove -/

/-- `rep movsb`; with the direction flag set the pointers go down. -/
def rep_movsb (backward : Bool) : (ecx edi esi : Nat) → Mem → Mem
  | 0, _, _, m => m
  | ecx+1, edi, esi, m =>
    let m := Function.update m edi (m esi)
    if backward then rep_movsb backward ecx (edi - 1) (esi - 1) m
    else rep_movsb backward ecx (edi + 1) (esi + 1) m

/-- The memory, and the direction flag, which nothing clears afterwards. -/
def memmove (dest src n : Nat) (m : Mem) : Mem × Bool :=
  if dest ≤ src then (rep_movsb false n dest src m,false)
  else (rep_movsb true n (dest + n - 1) (src + n - 1) m,true)

/-! ### What they do -/

variable {m : Mem} {dest src n : Nat} {b : Byte}

theorem low_repeated (b : Byte) : (repeated b).setWidth 8 = b := by
  apply BitVec.eq_of_getLsbD_eq
  intro i inside
  simp only [repeated,BitVec.getLsbD_setWidth,BitVec.getLsbD_append]
  simp [inside]

theorem rep_stosl_fills (ecx : Nat) (edi : Nat) (m : Mem) : rep_stosl (repeated b) ecx edi m = filled m edi (ecx * 4) b := by
  induction ecx generalizing edi m with
  | zero => simp [rep_stosl]
  | succ ecx ih =>
    rw [rep_stosl,ih,filled_word,filled_append]
    congr 1
    omega

theorem memset_bottom_fills (edx : Nat) (edi : Nat) (m : Mem) : memset_bottom b edx edi m = filled m edi edx b := by
  induction edx generalizing edi m with
  | zero => simp [memset_bottom]
  | succ edx ih =>
    rw [memset_bottom,ih,filled_byte,filled_append]
    congr 1
    omega

theorem memset_top_fills (ecx : Nat) (edi : Nat) (m : Mem) : memset_top (repeated b) ecx edi m = filled m edi ecx b := by
  induction ecx generalizing edi m with
  | zero => simp [memset_top]
  | succ ecx ih =>
    rw [memset_top]
    split
    · rw [memset_aligned,rep_stosl_fills,low_repeated,memset_bottom_fills,filled_append]
      congr 1
      omega
    · rw [ih,low_repeated,filled_byte,filled_append]
      congr 1
      omega

/-- The low byte in all four places. -/
theorem spread_byte (c : Word) :
    (c &&& 0xFF) <<< 24 ||| (c &&& 0xFF) <<< 16 ||| (c &&& 0xFF) <<< 8 ||| (c &&& 0xFF) = repeated (c.setWidth 8) := by
  have mask : c &&& 0xFF = (c.setWidth 8).setWidth 32 := by
    apply BitVec.eq_of_getLsbD_eq
    intro i inside
    have low : ∀ j : Fin 32, (0xFF : Word).getLsbD j = decide (j.val < 8) := by decide
    have bit := low ⟨i,inside⟩
    simp only [BitVec.getLsbD_and,BitVec.getLsbD_setWidth,bit]
    simp [inside,Bool.and_comm]
  have every : ∀ b : Byte, b.setWidth 32 <<< 24 ||| b.setWidth 32 <<< 16 ||| b.setWidth 32 <<< 8 ||| b.setWidth 32 =
      repeated b := by decide +kernel
  rw [mask]
  exact every _

/-- Whatever the alignment, exactly the `n` bytes are set to the low byte of
    `c`. -/
theorem memset_fills (s : Nat) (c : Word) (n : Nat) (m : Mem) : memset s c n m = filled m s n (c.setWidth 8) := by
  rw [memset,spread_byte,memset_top_fills]

theorem rep_movsl_copies (ecx : Nat) {edi esi : Nat} (m : Mem) (apart : edi ≤ esi ∨ esi + ecx * 4 ≤ edi) :
    rep_movsl ecx edi esi m = copied m edi esi (ecx * 4) := by
  induction ecx generalizing edi esi m with
  | zero => simp [rep_movsl]
  | succ ecx ih =>
    rw [rep_movsl,ih _ (by omega),copied_word,copied_forward (by omega)]
    congr 1
    omega

theorem memcpy_bottom_copies (edx : Nat) {edi esi : Nat} (m : Mem) (apart : edi ≤ esi ∨ esi + edx ≤ edi) :
    memcpy_bottom edx edi esi m = copied m edi esi edx := by
  induction edx generalizing edi esi m with
  | zero => simp [memcpy_bottom]
  | succ edx ih =>
    rw [memcpy_bottom,ih _ (by omega),copied_byte,copied_forward (by omega)]
    congr 1
    omega

theorem memcpy_top_copies (ecx : Nat) {edi esi : Nat} (m : Mem) (apart : edi ≤ esi ∨ esi + ecx ≤ edi) :
    memcpy_top ecx edi esi m = copied m edi esi ecx := by
  induction ecx generalizing edi esi m with
  | zero => simp [memcpy_top]
  | succ ecx ih =>
    rw [memcpy_top]
    split
    · rw [memcpy_aligned,rep_movsl_copies _ _ (by omega),memcpy_bottom_copies _ _ (by omega),copied_forward (by omega)]
      congr 1
      omega
    · rw [ih _ (by omega),copied_byte,copied_forward (by omega)]
      congr 1
      omega

/-- The forward copy is right unless its destination lies inside the source,
    behind its start. -/
theorem memcpy_copies (apart : dest ≤ src ∨ src + n ≤ dest) (m : Mem) : memcpy dest src n m = copied m dest src n :=
  memcpy_top_copies n m apart

theorem movsb_forward (ecx : Nat) {edi esi : Nat} (m : Mem) (apart : edi ≤ esi) :
    rep_movsb false ecx edi esi m = copied m edi esi ecx := by
  induction ecx generalizing edi esi m with
  | zero => simp [rep_movsb]
  | succ ecx ih =>
    simp only [rep_movsb,Bool.false_eq_true,↓reduceIte]
    rw [ih _ (by omega),copied_byte,copied_forward (by omega)]
    congr 1
    omega

theorem movsb_backward (ecx : Nat) {edi esi : Nat} (m : Mem) (apart : esi ≤ edi) :
    rep_movsb true ecx (edi + ecx - 1) (esi + ecx - 1) m = copied m edi esi ecx := by
  induction ecx generalizing m with
  | zero => simp [rep_movsb]
  | succ ecx ih =>
    simp only [rep_movsb,↓reduceIte]
    rw [show edi + (ecx + 1) - 1 = edi + ecx by omega,show esi + (ecx + 1) - 1 = esi + ecx by omega,ih,copied_byte,
      copied_backward (by omega)]

/-- However the two ranges overlap, every source byte is read before it is
    overwritten; the direction flag stays set where the destination lies behind
    the source. -/
theorem memmove_copies (dest src n : Nat) (m : Mem) : memmove dest src n m = (copied m dest src n,decide (src < dest)) := by
  rw [memmove]
  split
  case isTrue forward => rw [movsb_forward n m forward,decide_eq_false (by omega)]
  case isFalse backward => rw [movsb_backward n m (by omega),decide_eq_true (by omega)]

end Mp3Kernel.BlockMoves

import Mp3Kernel.Programs.Blink
import Mp3Kernel.Lib.Chain
import Mp3Kernel.Lib.Refine
import Mathlib.Data.List.Basic
import Mathlib.Data.Finset.Card

/-!
The linked list of `blink.S` refines a list of entries. As long as no entry is
added at location 0, whose slot the allocator takes for a free one, every call
ends, with fuel for as many entries as the screen has cells, answers as the
plain list does, and writes only the character bytes of the screen.
-/
namespace Mp3Kernel.BlinkList
open Mp3Kernel.Memory Mp3Kernel.Blink Mp3Kernel.Chain Mp3Kernel.Refine

/-! ### The plain list -/

/-- The entries, the youngest first, and the screen. -/
structure Board where
  entries : List Blinker
  screen : Nat → Byte

/-- The entry's countdown ends with the next tick. -/
def Expires (b : Blinker) : Prop := ¬ 0 < (b.countdown - 1).toInt
instance (b : Blinker) : Decidable (Expires b) := inferInstanceAs (Decidable (¬ _))

/-- An entry after a tick. -/
def tick (b : Blinker) : Blinker :=
  if Expires b then
    { b with countdown := if b.status &&& 1 = 0 then b.on_length else b.off_length, status := b.status ^^^ 1 }
  else { b with countdown := b.countdown - 1 }

/-- A character in the entry's cell. -/
def draw (screen : Nat → Byte) (b : Blinker) (c : Byte) : Nat → Byte :=
  Function.update screen (b.location.toNat * 2) c

/-- The screen after the tick of one entry. -/
def redraw (screen : Nat → Byte) (b : Blinker) : Nat → Byte :=
  if Expires b then draw screen b (if b.status &&& 1 = 0 then b.on_char else b.off_char) else screen

/-- The entry with the blinking of another one. -/
def inStep (source target : Blinker) : Blinker :=
  { target with on_length := source.on_length, off_length := source.off_length, countdown := source.countdown,
                status := source.status }

def at? (entries : List Blinker) (location : Half) : Option Blinker :=
  entries.find? (fun b => b.location = location)

/-- Changes the first entry with the location. -/
def changeAt (entries : List Blinker) (location : Half) (change : Blinker → Blinker) : List Blinker :=
  match entries with
  | [] => []
  | b :: rest => if b.location = location then change b :: rest else b :: changeAt rest location change

/-- What a call means to the plain list. -/
def boardCall (board : Board) : Call → Board × Answer
  | .add user =>
    if user.location.toNat < cells ∧ board.entries.length < cells then
      let entry := { user.toBlinker with status := 1, countdown := user.on_length }
      ({ entries := entry :: board.entries, screen := draw board.screen entry entry.on_char },⟨0,none⟩)
    else (board,⟨failure,none⟩)
  | .remove arg =>
    match at? board.entries (arg.setWidth 16) with
    | none => (board,⟨failure,none⟩)
    | some _ => ({ board with entries := board.entries.eraseP (fun b => b.location = arg.setWidth 16) },⟨0,none⟩)
  | .find user =>
    match at? board.entries user.location with
    | none => (board,⟨failure,some user.toBlinker⟩)
    | some b => (board,⟨0,some b⟩)
  | .sync arg =>
    match at? board.entries ((arg >>> 16).setWidth 16) with
    | none => (board,⟨failure,none⟩)
    | some source =>
      match at? board.entries ((arg &&& 0xFFFF).setWidth 16) with
      | none => (board,⟨failure,none⟩)
      | some target =>
        -- whatever its status, the off character is drawn
        ({ entries := changeAt board.entries ((arg &&& 0xFFFF).setWidth 16) (inStep source),
           screen := draw board.screen target target.off_char },⟨0,none⟩)
  | .tasklet =>
    ({ entries := board.entries.map tick, screen := board.entries.foldl redraw board.screen },⟨0,none⟩)

/-! ### The refinement relation -/

abbrev nexts (s : Fish) (i : Nat) : Option Nat := (s.blink_array i).next
abbrev entry (s : Fish) (i : Nat) : Blinker := (s.blink_array i).toBlinker

/-- The slots on the list, in order, hold the entries of the board; the other
    slots are free. -/
structure Shows (s : Fish) (slots : List Nat) (board : Board) : Prop where
  chain : Leads (nexts s) s.mp1_list_head slots
  entries : slots.map (entry s) = board.entries
  screen : s.vmem = board.screen
  pool : ∀ i ∈ slots, i < cells
  used : ∀ i ∈ slots, (s.blink_array i).location ≠ 0 ∧ (s.blink_array i).location.toNat < cells
  free : ∀ i, i ∉ slots → (s.blink_array i).location = 0

/-- Some slots spell out the board. -/
def Refines (s : Fish) (board : Board) : Prop := ∃ slots, Shows s slots board

variable {s : Fish} {slots : List Nat} {board : Board} {fuel : Nat}

theorem slots_length (shows : Shows s slots board) : slots.length ≤ cells := by
  have nodup := leads_nodup shows.chain
  have inside : slots.toFinset ⊆ Finset.range cells := by
    intro i listed
    exact Finset.mem_range.mpr (shows.pool i (List.mem_toFinset.mp listed))
  have card := Finset.card_le_card inside
  rwa [List.toFinset_card_of_nodup nodup,Finset.card_range] at card

theorem entries_length (shows : Shows s slots board) : board.entries.length = slots.length := by
  rw [← shows.entries,List.length_map]

/-- The allocator finds a slot off the list exactly while one is left. -/
theorem malloc_spec (shows : Shows s slots board) :
    (∃ i, mp1_malloc s = some i ∧ i < cells ∧ i ∉ slots ∧ board.entries.length < cells) ∨
      mp1_malloc s = none ∧ cells ≤ board.entries.length := by
  rw [entries_length shows]
  cases found : mp1_malloc s with
  | some i =>
    rw [mp1_malloc] at found
    have zero : (s.blink_array i).location = 0 := by simpa using List.find?_some found
    have low : i < cells := List.mem_range.mp (List.mem_of_find?_eq_some found)
    have fresh : i ∉ slots := fun listed => (shows.used i listed).1 zero
    refine .inl ⟨i,rfl,low,fresh,?_⟩
    have nodup : (i :: slots).Nodup := List.nodup_cons.mpr ⟨fresh,leads_nodup shows.chain⟩
    have inside : (i :: slots).toFinset ⊆ Finset.range cells := by
      intro j listed
      rcases List.mem_cons.mp (List.mem_toFinset.mp listed) with rfl | old
      · exact Finset.mem_range.mpr low
      · exact Finset.mem_range.mpr (shows.pool j old)
    have card := Finset.card_le_card inside
    rw [List.toFinset_card_of_nodup nodup,Finset.card_range,List.length_cons] at card
    exact card
  | none =>
    rw [mp1_malloc] at found
    refine .inr ⟨rfl,?_⟩
    have full : Finset.range cells ⊆ slots.toFinset := by
      intro i inside
      rw [List.mem_toFinset]
      by_contra free
      have none_zero := List.find?_eq_none.mp found i (List.mem_range.mpr (Finset.mem_range.mp inside))
      exact none_zero (by simpa using shows.free i free)
    have card := Finset.card_le_card full
    rw [Finset.card_range] at card
    exact le_trans card (List.toFinset_card_le slots)

/-! ### The loops follow the chain -/

theorem find_loop_spec (location : Half) {p : Option Nat} (chain : Leads (nexts s) p slots)
    (enough : slots.length ≤ fuel) :
    find_loop s location fuel p = some (slots.find? (fun i => (s.blink_array i).location = location)) := by
  induction slots generalizing p fuel with
  | nil =>
    obtain rfl := chain
    cases fuel <;> rfl
  | cons i rest ih =>
    obtain ⟨rfl,later⟩ := chain
    cases fuel with
    | zero => simp at enough
    | succ fuel =>
      simp only [find_loop,List.find?_cons]
      by_cases same : (s.blink_array i).location = location
      · simp [same]
      · simp only [same,↓reduceIte,decide_false]
        exact ih later (by simpa using enough)

/-- The helper finds the first slot on the list with the location. -/
theorem find_helper_spec (shows : Shows s slots board) (enough : cells ≤ fuel) (location : Half) :
    mp1_find_helper fuel s location = some (slots.find? (fun i => (s.blink_array i).location = location)) :=
  find_loop_spec location shows.chain (le_trans (slots_length shows) enough)

theorem find_slots (shows : Shows s slots board) (location : Half) :
    at? board.entries location =
      (slots.find? (fun i => (s.blink_array i).location = location)).map (entry s) := by
  rw [at?,← shows.entries,List.find?_map]
  rfl

/-- The pointer to the entry is in the link before it. -/
theorem find_prev_spec {front rest : List Nat} {i : Nat} {link : Link} (fresh : i ∉ front)
    (chain : Leads (nexts s) (s.load link) (front ++ i :: rest)) (enough : front.length ≤ fuel) :
    remove_find_prev s i fuel link = some ((front.getLast?.map Link.next).getD link) := by
  induction front generalizing link fuel with
  | nil =>
    have here : s.load link = some i := chain.1
    cases fuel <;> simp [remove_find_prev,here]
  | cons j front ih =>
    obtain ⟨here,later⟩ := chain
    have other : ¬ s.load link = some i := by
      rw [here]
      intro same
      exact fresh (by rw [Option.some.inj same]; exact List.mem_cons_self)
    cases fuel with
    | zero => simp at enough
    | succ fuel =>
      simp only [remove_find_prev]
      rw [if_neg other]
      simp only [here]
      have below : Leads (nexts s) (s.load (.next j)) (front ++ i :: rest) := later
      have found := ih (fun inside => fresh (List.mem_cons_of_mem j inside)) below
        (show front.length ≤ fuel by simpa using enough)
      rw [found]
      cases front <;> simp [List.getLast?_cons]

theorem tasklet_entry_eq (s : Fish) (i : Nat) :
    tasklet_entry s i =
      { s.put i { s.blink_array i with toBlinker := tick (entry s i) } with vmem := redraw s.vmem (entry s i) } := by
  simp only [tasklet_entry,tick,redraw,Expires,draw,entry]
  by_cases later : 0 < ((s.blink_array i).countdown - 1).toInt
  · simp only [later,not_true,↓reduceIte,Fish.put]
  · by_cases off : (s.blink_array i).status &&& 1 = 0
    · simp only [later,off,not_false_eq_true,↓reduceIte,Fish.put,mp1_poke,Function.update_idem]
    · simp only [later,off,not_false_eq_true,↓reduceIte,Fish.put,mp1_poke,Function.update_idem]

/-- The loop ticks the entries of the chain one after the other. -/
theorem tasklet_loop_spec {p : Option Nat} (chain : Leads (nexts s) p slots) (enough : slots.length ≤ fuel) :
    ∃ t, tasklet_loop fuel s p = some t ∧ t.mp1_list_head = s.mp1_list_head ∧ nexts t = nexts s ∧
      (∀ i ∈ slots, entry t i = tick (entry s i)) ∧ (∀ i, i ∉ slots → t.blink_array i = s.blink_array i) ∧
      t.vmem = (slots.map (entry s)).foldl redraw s.vmem := by
  induction slots generalizing s p fuel with
  | nil =>
    obtain rfl := chain
    refine ⟨s,?_,rfl,rfl,by simp,by simp,rfl⟩
    cases fuel <;> rfl
  | cons i rest ih =>
    have nodup := leads_nodup chain
    obtain ⟨rfl,below⟩ := chain
    have apart : i ∉ rest := (List.nodup_cons.mp nodup).1
    cases fuel with
    | zero => simp at enough
    | succ fuel =>
      have once := tasklet_entry_eq s i
      generalize tasklet_entry s i = s' at once
      have same : nexts s' = nexts s := by
        funext j
        by_cases here : j = i
        · subst here
          simp [nexts,once]
        · simp [nexts,once,here]
      have other (j : Nat) (elsewhere : j ≠ i) : s'.blink_array j = s.blink_array j := by
        simp [once,elsewhere]
      have here : entry s' i = tick (entry s i) := by simp [entry,once]
      obtain ⟨t,ran,head,links,ticked,kept,video⟩ := ih (s := s') (p := nexts s i)
        (by rw [same]; exact below) (show rest.length ≤ fuel by simpa using enough)
      refine ⟨t,?_,?_,links.trans same,?_,?_,?_⟩
      · rw [tasklet_loop]
        have pointer : (s'.blink_array i).next = nexts s i := congrFun same i
        simp only [show tasklet_entry s i = s' from (tasklet_entry_eq s i).trans once.symm,pointer]
        exact ran
      · rw [head,once]
        rfl
      · intro j listed
        rcases List.mem_cons.mp listed with rfl | later
        · rw [← here,entry,kept j apart]
        · rw [ticked j later,entry,other j (fun equal => apart (equal ▸ later))]
      · intro j off
        rw [List.mem_cons,not_or] at off
        rw [kept j off.2,other j off.1]
      · have entries : rest.map (entry s') = rest.map (entry s) := by
          apply List.map_congr_left
          intro j later
          rw [entry,other j (fun equal => apart (equal ▸ later))]
        rw [video,entries,List.map_cons,List.foldl_cons,once]

/-! ### What every call keeps -/

theorem tick_location (b : Blinker) : (tick b).location = b.location := by
  rw [tick]
  split <;> rfl

theorem tasklet_refines (shows : Shows s slots board) (enough : cells ≤ fuel) :
    ∃ t, mp1_call fuel s .tasklet = some (t,(boardCall board .tasklet).2) ∧
      Shows t slots (boardCall board .tasklet).1 := by
  obtain ⟨t,ran,head,links,ticked,kept,video⟩ :=
    tasklet_loop_spec shows.chain (le_trans (slots_length shows) enough)
  refine ⟨t,?_,?_⟩
  · simp only [mp1_call,mp1_rtc_tasklet,ran]
    rfl
  · have place (i : Nat) (listed : i ∈ slots) : (t.blink_array i).location = (s.blink_array i).location := by
      change (entry t i).location = _
      rw [ticked i listed,tick_location]
    constructor
    · rw [head,links]
      exact shows.chain
    · simp only [boardCall,← shows.entries,List.map_map]
      apply List.map_congr_left
      intro i listed
      rw [ticked i listed]
      rfl
    · simp only [boardCall]
      rw [video,shows.entries,shows.screen]
    · exact shows.pool
    · intro i listed
      rw [place i listed]
      exact shows.used i listed
    · intro i off
      rw [kept i off]
      exact shows.free i off

theorem find_refines (shows : Shows s slots board) (enough : cells ≤ fuel) (user : Mp1BlinkStruct) :
    mp1_call fuel s (.find user) = some (s,(boardCall board (.find user)).2) ∧
      (boardCall board (.find user)).1 = board := by
  simp only [mp1_call,mp1_ioctl_find,find_helper_spec shows enough,boardCall,find_slots shows]
  cases slots.find? (fun i => (s.blink_array i).location = user.location) with
  | none => exact ⟨rfl,rfl⟩
  | some i => exact ⟨rfl,rfl⟩

/-- The youngest entry takes a fresh slot and stands first. -/
theorem add_refines (fuel : Nat) (shows : Shows s slots board) (user : Mp1BlinkStruct) (used : user.location ≠ 0) :
    ∃ t slots', mp1_call fuel s (.add user) = some (t,(boardCall board (.add user)).2) ∧
      Shows t slots' (boardCall board (.add user)).1 := by
  by_cases outside : cells ≤ user.location.toNat
  · refine ⟨s,slots,?_,?_⟩
    · simp only [mp1_call,mp1_ioctl_add,outside,↓reduceIte,boardCall,not_lt.mpr outside,false_and]
    · simp only [boardCall,not_lt.mpr outside,false_and,↓reduceIte]
      exact shows
  rcases malloc_spec shows with ⟨i,found,low,fresh,room⟩ | ⟨found,full⟩
  · have inside : user.location.toNat < cells := not_le.mp outside
    let b : Mp1BlinkStruct := { user with status := 1, countdown := user.on_length, next := s.mp1_list_head }
    let t : Fish := { s.put i b with mp1_list_head := some i, vmem := draw s.vmem b.toBlinker b.on_char }
    have other (j : Nat) (elsewhere : j ≠ i) : t.blink_array j = s.blink_array j := put_other elsewhere
    have here : t.blink_array i = b := put_same
    have off {j : Nat} (listed : j ∈ slots) : j ≠ i := fun same => fresh (same ▸ listed)
    have links : nexts t = Function.update (nexts s) i s.mp1_list_head := by
      funext j
      by_cases same : j = i
      · rw [same,Function.update_self,nexts,here]
      · rw [Function.update_of_ne same,nexts,other j same]
    refine ⟨t,i :: slots,?_,?_⟩
    · simp only [mp1_call,mp1_ioctl_add,outside,↓reduceIte,found,boardCall,inside,room,true_and,put_same,put_put]
      rfl
    · simp only [boardCall,inside,room,and_self,↓reduceIte]
      constructor
      · rw [links]
        exact leads_push shows.chain fresh
      · rw [List.map_cons,← shows.entries]
        refine congrArg₂ _ (congrArg Mp1BlinkStruct.toBlinker here) ?_
        apply List.map_congr_left
        intro j listed
        rw [entry,other j (off listed)]
      · change draw s.vmem _ _ = _
        rw [shows.screen]
      · intro j listed
        rcases List.mem_cons.mp listed with rfl | old
        · exact low
        · exact shows.pool j old
      · intro j listed
        rcases List.mem_cons.mp listed with rfl | old
        · rw [here]
          exact ⟨used,inside⟩
        · rw [other j (off old)]
          exact shows.used j old
      · intro j unlisted
        rw [List.mem_cons,not_or] at unlisted
        rw [other j unlisted.1]
        exact shows.free j unlisted.2
  · refine ⟨s,slots,?_,?_⟩
    · simp only [mp1_call,mp1_ioctl_add,outside,↓reduceIte,found,boardCall,not_lt.mpr full,and_false]
    · simp only [boardCall,not_lt.mpr full,and_false,↓reduceIte]
      exact shows

/-- The first slot with a location, among the others on the list. -/
theorem find_split {location : Half} {i : Nat}
    (found : slots.find? (fun j => (s.blink_array j).location = location) = some i) :
    ∃ front rest, slots = front ++ i :: rest ∧ (s.blink_array i).location = location ∧
      ∀ j ∈ front, (s.blink_array j).location ≠ location := by
  obtain ⟨here,front,rest,rfl,before⟩ := List.find?_eq_some_iff_append.mp found
  exact ⟨front,rest,rfl,by simpa using here,fun j listed => by simpa using before j listed⟩

theorem eraseP_split {location : Half} {xs ys : List Blinker} {b : Blinker} (here : b.location = location)
    (before : ∀ x ∈ xs, x.location ≠ location) :
    (xs ++ b :: ys).eraseP (fun x => x.location = location) = xs ++ ys := by
  rw [List.eraseP_append_right _ (fun x listed => by simpa using before x listed),
    List.eraseP_cons_of_pos (by simpa using here)]

theorem changeAt_split {location : Half} {xs ys : List Blinker} {b : Blinker} {change : Blinker → Blinker}
    (here : b.location = location) (before : ∀ x ∈ xs, x.location ≠ location) :
    changeAt (xs ++ b :: ys) location change = xs ++ change b :: ys := by
  induction xs with
  | nil => simp [changeAt,here]
  | cons x xs ih =>
    rw [List.cons_append,changeAt,if_neg (before x List.mem_cons_self),
      ih (fun y listed => before y (List.mem_cons_of_mem x listed))]
    rfl

/-- Unlinking a slot leaves the chain of the others. -/
theorem store_next_leads {front rest : List Nat} {i : Nat} (chain : Leads (nexts s) s.mp1_list_head (front ++ i :: rest)) :
    let t := s.store ((front.getLast?.map Link.next).getD .head) (s.blink_array i).next
    Leads (nexts t) t.mp1_list_head (front ++ rest) ∧ (∀ j, entry t j = entry s j) ∧ t.vmem = s.vmem := by
  cases last : front.getLast? with
  | none =>
    obtain rfl := List.getLast?_eq_none_iff.mp last
    exact ⟨chain.2,fun _ => rfl,rfl⟩
  | some a =>
    obtain ⟨front,rfl⟩ := List.getLast?_eq_some_iff.mp last
    simp only [Option.map_some,Option.getD_some,Fish.store]
    have links : nexts (s.put a { s.blink_array a with next := (s.blink_array i).next }) =
        Function.update (nexts s) a (nexts s i) := by
      funext j
      by_cases same : j = a
      · rw [same,Function.update_self,nexts,put_same]
      · rw [Function.update_of_ne same,nexts,put_other same]
    refine ⟨?_,?_,rfl⟩
    · rw [links,put_head,List.append_assoc,List.singleton_append]
      rw [List.append_assoc,List.singleton_append] at chain
      exact leads_unlink chain
    · intro j
      by_cases same : j = a
      · rw [same,entry,put_same]
      · rw [entry,put_other same]

theorem remove_refines (shows : Shows s slots board) (enough : cells ≤ fuel) (arg : Word) :
    ∃ t slots', mp1_call fuel s (.remove arg) = some (t,(boardCall board (.remove arg)).2) ∧
      Shows t slots' (boardCall board (.remove arg)).1 := by
  simp only [mp1_call,mp1_ioctl_remove,find_helper_spec shows enough,boardCall,find_slots shows]
  cases found : slots.find? (fun i => (s.blink_array i).location = arg.setWidth 16) with
  | none => exact ⟨s,slots,rfl,shows⟩
  | some i =>
    obtain ⟨front,rest,rfl,here,before⟩ := find_split found
    have nodup := leads_nodup shows.chain
    have apart : i ∉ front ∧ i ∉ rest := by
      simp only [List.nodup_append,List.nodup_cons] at nodup
      exact ⟨fun inside => nodup.2.2 i inside i List.mem_cons_self rfl,nodup.2.1.1⟩
    have short : front.length ≤ fuel := by
      have total := slots_length shows
      rw [List.length_append] at total
      omega
    have whole : Leads (nexts s) (s.load .head) (front ++ i :: rest) := shows.chain
    have link := find_prev_spec apart.1 whole short
    obtain ⟨chain,same,video⟩ := store_next_leads shows.chain
    let unlinked := s.store ((front.getLast?.map Link.next).getD .head) (s.blink_array i).next
    let t := mp1_free unlinked i
    have gone : i ∉ front ++ rest := by
      rw [List.mem_append]
      rintro (inside | inside)
      · exact apart.1 inside
      · exact apart.2 inside
    have other (j : Nat) (elsewhere : j ≠ i) : entry t j = entry s j := by
      rw [← same j]
      exact congrArg Mp1BlinkStruct.toBlinker (put_other elsewhere)
    have listed {j : Nat} (inside : j ∈ front ++ rest) : j ∈ front ++ i :: rest ∧ j ≠ i := by
      refine ⟨?_,fun equal => gone (equal ▸ inside)⟩
      simp only [List.mem_append,List.mem_cons] at inside ⊢
      tauto
    refine ⟨t,front ++ rest,?_,?_⟩
    · simp [link,t,unlinked]
    · constructor
      · change Leads (nexts t) unlinked.mp1_list_head (front ++ rest)
        refine leads_congr ?_ chain
        intro j inside
        exact congrArg Mp1BlinkStruct.next (put_other (listed inside).2).symm
      · change _ = List.eraseP _ _
        have erased : ((front ++ i :: rest).map (entry s)).eraseP (fun b => b.location = arg.setWidth 16) =
            (front ++ rest).map (entry s) := by
          rw [List.map_append,List.map_cons,eraseP_split here (by simpa using before),← List.map_append]
        rw [← shows.entries,erased]
        exact List.map_congr_left (fun j inside => other j (listed inside).2)
      · exact video.trans shows.screen
      · exact fun j inside => shows.pool j (listed inside).1
      · intro j inside
        have place : (t.blink_array j).location = (s.blink_array j).location :=
          congrArg Blinker.location (other j (listed inside).2)
        rw [place]
        exact shows.used j (listed inside).1
      · intro j unlisted
        by_cases equal : j = i
        · rw [equal]
          exact congrArg (fun b => b.location) (put_same (s := unlinked) (b := zeroed))
        · have place : (t.blink_array j).location = (s.blink_array j).location :=
            congrArg Blinker.location (other j equal)
          rw [place]
          refine shows.free j ?_
          simp only [List.mem_append,List.mem_cons] at unlisted ⊢
          tauto

/-- Copying the four fields one after the other sets the target in step, also
    where it is its own source. -/
theorem sync_refines (shows : Shows s slots board) (enough : cells ≤ fuel) (arg : Word) :
    ∃ t, mp1_call fuel s (.sync arg) = some (t,(boardCall board (.sync arg)).2) ∧
      Shows t slots (boardCall board (.sync arg)).1 := by
  simp only [mp1_call,mp1_ioctl_sync,find_helper_spec shows enough,boardCall,find_slots shows]
  cases sourced : slots.find? (fun i => (s.blink_array i).location = (arg >>> 16).setWidth 16) with
  | none => exact ⟨s,rfl,shows⟩
  | some esi =>
    cases found : slots.find? (fun i => (s.blink_array i).location = (arg &&& 0xFFFF).setWidth 16) with
    | none => exact ⟨s,rfl,shows⟩
    | some edi =>
      obtain ⟨front,rest,rfl,here,before⟩ := find_split found
      have nodup := leads_nodup shows.chain
      let b : Mp1BlinkStruct := { s.blink_array edi with toBlinker := inStep (entry s esi) (entry s edi) }
      let t : Fish := mp1_poke (s.put edi b) b.off_char (b.location.toNat * 2)
      have other (j : Nat) (elsewhere : j ≠ edi) : t.blink_array j = s.blink_array j := put_other elsewhere
      have changed : t.blink_array edi = b := put_same
      have links : nexts t = nexts s := by
        funext j
        by_cases same : j = edi
        · rw [same,nexts,changed]
        · rw [nexts,other j same]
      have place (j : Nat) : (t.blink_array j).location = (s.blink_array j).location := by
        by_cases same : j = edi
        · rw [same,changed]
          rfl
        · rw [other j same]
      refine ⟨t,?_,?_⟩
      · by_cases same : esi = edi
        · subst same
          simp [cmovl_never,t,b,inStep,entry]
        · simp [cmovl_never,t,b,inStep,entry,same]
      · constructor
        · rw [links]
          exact shows.chain
        · simp only [Option.map_some,← shows.entries,List.map_append,List.map_cons]
          rw [changeAt_split here (by simpa using before)]
          have apart : edi ∉ front ∧ edi ∉ rest := by
            simp only [List.nodup_append,List.nodup_cons] at nodup
            exact ⟨fun inside => nodup.2.2 edi inside edi List.mem_cons_self rfl,nodup.2.1.1⟩
          have off {xs : List Nat} (absent : edi ∉ xs) : xs.map (entry t) = xs.map (entry s) := by
            apply List.map_congr_left
            intro j inside
            rw [entry,other j (fun equal => absent (equal ▸ inside))]
          rw [off apart.1,off apart.2,entry,changed]
        · change draw s.vmem _ _ = _
          rw [shows.screen]
          rfl
        · exact shows.pool
        · intro j listed
          rw [place j]
          exact shows.used j listed
        · intro j unlisted
          rw [place j]
          exact shows.free j unlisted

/-! ### Runs -/

/-- No entry is added at location 0, where a used slot would look free. -/
def Placed : Call → Prop
  | .add user => user.location ≠ 0
  | _ => True

theorem started_shows (vmem : Nat → Byte) : Shows (started vmem) [] { entries := [], screen := vmem } where
  chain := rfl
  entries := rfl
  screen := rfl
  pool := by simp
  used := by simp
  free := fun _ _ => rfl

/-- One call on the pointers is one call on the plain list. -/
theorem call_refines (enough : cells ≤ fuel) (s : Fish) (board : Board) (call : Call) (related : Refines s board)
    (placed : Placed call) :
    ∃ t, mp1_call fuel s call = some (t,(boardCall board call).2) ∧ Refines t (boardCall board call).1 := by
  obtain ⟨slots,shows⟩ := related
  cases call with
  | add user =>
    obtain ⟨t,slots',ran,after⟩ := add_refines fuel shows user placed
    exact ⟨t,ran,slots',after⟩
  | remove arg =>
    obtain ⟨t,slots',ran,after⟩ := remove_refines shows enough arg
    exact ⟨t,ran,slots',after⟩
  | find user =>
    obtain ⟨ran,same⟩ := find_refines shows enough user
    exact ⟨s,ran,slots,by rw [same]; exact shows⟩
  | sync arg =>
    obtain ⟨t,ran,after⟩ := sync_refines shows enough arg
    exact ⟨t,ran,slots,after⟩
  | tasklet =>
    obtain ⟨t,ran,after⟩ := tasklet_refines shows enough
    exact ⟨t,ran,slots,after⟩

/-- A byte of the screen that holds a character, not its attribute. -/
def CharacterByte (a : Nat) : Prop := ∃ cell, cell < cells ∧ a = cell * 2

theorem draw_frame {screen : Nat → Byte} {b : Blinker} {c : Byte} {a : Nat} (inside : b.location.toNat < cells)
    (other : ¬ CharacterByte a) : draw screen b c a = screen a := by
  rw [draw,Function.update_of_ne]
  rintro rfl
  exact other ⟨b.location.toNat,inside,rfl⟩

theorem redraws_frame {entries : List Blinker} {screen : Nat → Byte} {a : Nat}
    (inside : ∀ b ∈ entries, b.location.toNat < cells) (other : ¬ CharacterByte a) :
    entries.foldl redraw screen a = screen a := by
  induction entries generalizing screen with
  | nil => rfl
  | cons b rest ih =>
    rw [List.foldl_cons,ih (fun c listed => inside c (List.mem_cons_of_mem b listed)),redraw]
    split
    · exact draw_frame (inside b List.mem_cons_self) other
    · rfl

theorem entries_inside (shows : Shows s slots board) {b : Blinker} (listed : b ∈ board.entries) :
    b.location.toNat < cells := by
  rw [← shows.entries] at listed
  obtain ⟨i,inside,rfl⟩ := List.mem_map.mp listed
  exact (shows.used i inside).2

/-- No call changes an attribute, or a byte past the screen. -/
theorem call_frame (shows : Shows s slots board) (call : Call) {a : Nat} (other : ¬ CharacterByte a) :
    (boardCall board call).1.screen a = board.screen a := by
  cases call with
  | add user =>
    simp only [boardCall]
    split
    case isTrue fits => exact draw_frame fits.1 other
    case isFalse => rfl
  | remove arg =>
    simp only [boardCall]
    split <;> rfl
  | find user =>
    simp only [boardCall]
    split <;> rfl
  | sync arg =>
    simp only [boardCall]
    split
    case h_1 => rfl
    case h_2 =>
      split
      case h_1 => rfl
      case h_2 target found => exact draw_frame (entries_inside shows (List.mem_of_find?_eq_some found)) other
  | tasklet => exact redraws_frame (fun b listed => entries_inside shows listed) other

/-- Every run of calls that adds no entry at location 0 ends and answers as the
    plain list does; the list never outgrows the pool, and only character bytes
    of the screen change. -/
theorem calls_refine_list {fuel : Nat} (enough : cells ≤ fuel) (vmem : Nat → Byte) (calls : List Call)
    (placed : ∀ call ∈ calls, Placed call) :
    ∃ t, answers (mp1_call fuel) (started vmem) calls =
        some (t,(expected boardCall { entries := [], screen := vmem } calls).2) ∧
      Refines t (expected boardCall { entries := [], screen := vmem } calls).1 ∧
      (expected boardCall { entries := [], screen := vmem } calls).1.entries.length ≤ cells ∧
      ∀ a, ¬ CharacterByte a → t.vmem a = vmem a := by
  let R (s : Fish) (board : Board) : Prop := Refines s board ∧ ∀ a, ¬ CharacterByte a → s.vmem a = vmem a
  have keeps : ∀ s board call, R s board → Placed call →
      ∃ t, mp1_call fuel s call = some (t,(boardCall board call).2) ∧ R t (boardCall board call).1 := by
    rintro s board call ⟨related,unchanged⟩ fine
    obtain ⟨t,ran,after⟩ := call_refines enough s board call related fine
    refine ⟨t,ran,after,?_⟩
    intro a other
    obtain ⟨slots,shows⟩ := related
    obtain ⟨slots',shows'⟩ := after
    rw [shows'.screen,call_frame shows call other,← shows.screen]
    exact unchanged a other
  obtain ⟨t,ran,last,unchanged⟩ := answers_refine (R := R) keeps ⟨⟨[],started_shows vmem⟩,fun _ _ => rfl⟩ placed
  obtain ⟨slots,shows⟩ := last
  refine ⟨t,ran,⟨slots,shows⟩,?_,unchanged⟩
  rw [entries_length shows]
  exact slots_length shows

/-- An add, two ticks and a find: the entry is counted down twice. -/
theorem calls_refine_list_ticked :
    ∃ t, answers (mp1_call cells) (started fun _ => 0)
        [.add { zeroed with location := 41, on_char := ascii 'I', off_char := ascii 'M', on_length := 7, off_length := 6 },
          .tasklet,.tasklet,.find { zeroed with location := 41 }] =
      some (t,[⟨0,none⟩,⟨0,none⟩,⟨0,none⟩,⟨0,some ⟨41,ascii 'I',ascii 'M',7,6,5,1⟩⟩]) := by
  obtain ⟨t,ran,-⟩ := calls_refine_list (le_refl cells) (fun _ => 0)
    [.add { zeroed with location := 41, on_char := ascii 'I', off_char := ascii 'M', on_length := 7, off_length := 6 },
      .tasklet,.tasklet,.find { zeroed with location := 41 }] (by simp [Placed])
  exact ⟨t,ran.trans rfl⟩

/-! ### An entry at location 0 -/

theorem tasklet_entry_nexts (s : Fish) (i : Nat) : nexts (tasklet_entry s i) = nexts s := by
  rw [tasklet_entry_eq]
  funext j
  by_cases same : j = i
  · subst same
    simp [nexts]
  · simp [nexts,same]

/-- From a slot that points to itself the tasklet never comes back. -/
theorem tasklet_loop_stuck {i : Nat} (loop : nexts s i = some i) (fuel : Nat) :
    tasklet_loop fuel s (some i) = none := by
  induction fuel generalizing s with
  | zero => rfl
  | succ fuel ih =>
    have same := tasklet_entry_nexts s i
    have pointer : ((tasklet_entry s i).blink_array i).next = some i := (congrFun same i).trans loop
    rw [tasklet_loop,pointer]
    exact ih (by rw [same]; exact loop)

end Mp3Kernel.BlinkList

import Mp3Kernel.Terminal.Console

/-!
The keyboard driver of keyboard.c: the table of keys, the map from scancodes to
keys and what one keypress does. A key's constant fields are in the table and
its `pressed` field is part of the state.
-/
namespace Mp3Kernel.Keys
open Mp3Kernel.Memory (Byte ascii)
open Mp3Kernel.Tty

inductive Key where
  | dummy | escape | number_1 | number_2 | number_3 | number_4 | number_5 | number_6 | number_7 | number_8
  | number_9 | number_0 | dash | equals | backspace | tab | q | w | e | r | t | y | u | i | o | p
  | left_bracket | right_bracket | enter | left_control | a | s | d | f | g | h | j | k | l | semicolon
  | single_quote | back_tick | left_shift | backslash | z | x | c | v | b | n | m | comma | period | slash
  | right_shift | left_alt | space | caps_lock | f1 | f2 | f3 | f4 | f5 | f6 | f7 | f8 | f9 | f10 | f11 | f12
  | number_lock | scroll_lock | keypad_1 | keypad_2 | keypad_3 | keypad_4 | keypad_5 | keypad_6 | keypad_7
  | keypad_8 | keypad_9 | keypad_0 | keypad_dash | keypad_plus | keypad_period | keypad_star | keypad_enter
  | right_control | keypad_slash | right_alt | home | cursor_up | page_up | cursor_left | cursor_right | end_
  | cursor_down | page_down | insert | delete | left_gui | right_gui | apps | pause
  deriving DecidableEq, Repr

/-- The fields of a `key` that never change. -/
structure KeyFields where
  lowercase_char : Char
  uppercase_char : Char
  shift_char : Char
  to_display : Bool
  deriving DecidableEq, Repr

def silent : KeyFields := ⟨Char.ofNat 0,Char.ofNat 0,Char.ofNat 0,false⟩

def Key.fields : Key → KeyFields
  | .number_1 => ⟨'1','1','!',true⟩
  | .number_2 => ⟨'2','2','@',true⟩
  | .number_3 => ⟨'3','3','#',true⟩
  | .number_4 => ⟨'4','4','$',true⟩
  | .number_5 => ⟨'5','5','%',true⟩
  | .number_6 => ⟨'6','6','^',true⟩
  | .number_7 => ⟨'7','7','&',true⟩
  | .number_8 => ⟨'8','8','*',true⟩
  | .number_9 => ⟨'9','9','(',true⟩
  | .number_0 => ⟨'0','0',')',true⟩
  | .dash => ⟨'-','-','_',true⟩
  | .equals => ⟨'=','=','+',true⟩
  | .tab => ⟨'\t','\t','\t',false⟩
  | .q => ⟨'q','Q','Q',true⟩
  | .w => ⟨'w','W','W',true⟩
  | .e => ⟨'e','E','E',true⟩
  | .r => ⟨'r','R','R',true⟩
  | .t => ⟨'t','T','T',true⟩
  | .y => ⟨'y','Y','Y',true⟩
  | .u => ⟨'u','U','U',true⟩
  | .i => ⟨'i','I','I',true⟩
  | .o => ⟨'o','O','O',true⟩
  | .p => ⟨'p','P','P',true⟩
  | .left_bracket => ⟨'[','[','{',true⟩
  | .right_bracket => ⟨']',']','}',true⟩
  | .enter => ⟨'\n','\n','\n',true⟩
  | .a => ⟨'a','A','A',true⟩
  | .s => ⟨'s','S','S',true⟩
  | .d => ⟨'d','D','D',true⟩
  | .f => ⟨'f','F','F',true⟩
  | .g => ⟨'g','G','G',true⟩
  | .h => ⟨'h','H','H',true⟩
  | .j => ⟨'j','J','J',true⟩
  | .k => ⟨'k','K','K',true⟩
  | .l => ⟨'l','L','L',true⟩
  | .semicolon => ⟨';',';',':',true⟩
  | .single_quote => ⟨Char.ofNat 39,Char.ofNat 39,Char.ofNat 34,true⟩
  | .back_tick => ⟨Char.ofNat 96,Char.ofNat 96,'~',true⟩
  | .backslash => ⟨Char.ofNat 92,Char.ofNat 92,'|',true⟩
  | .z => ⟨'z','X','Z',true⟩
  | .x => ⟨'x','X','X',true⟩
  | .c => ⟨'c','C','C',true⟩
  | .v => ⟨'v','V','V',true⟩
  | .b => ⟨'b','B','B',true⟩
  | .n => ⟨'n','N','N',true⟩
  | .m => ⟨'m','M','M',true⟩
  | .comma => ⟨',',',','<',true⟩
  | .period => ⟨'.','.','>',true⟩
  | .slash => ⟨'/','/','?',true⟩
  | .space => ⟨' ',' ',' ',true⟩
  | .keypad_1 => ⟨'1','1','1',true⟩
  | .keypad_2 => ⟨'2','2','2',true⟩
  | .keypad_3 => ⟨'3','3','3',true⟩
  | .keypad_4 => ⟨'4','4','4',true⟩
  | .keypad_5 => ⟨'5','5','5',true⟩
  | .keypad_6 => ⟨'6','6','6',true⟩
  | .keypad_7 => ⟨'7','7','7',true⟩
  | .keypad_8 => ⟨'8','8','8',true⟩
  | .keypad_9 => ⟨'9','9','9',true⟩
  | .keypad_0 => ⟨'0','0','0',true⟩
  | .keypad_dash => ⟨'-','-','-',true⟩
  | .keypad_plus => ⟨'+','+','+',true⟩
  | .keypad_period => ⟨'.','.','.',true⟩
  | .keypad_star => ⟨'*','*','*',true⟩
  | .keypad_enter => ⟨'\n','\n','\n',true⟩
  | .keypad_slash => ⟨'/','/','/',true⟩
  | _ => silent

structure KeyOrientation where
  keyboard_key : Key
  orientation : Bool
  deriving DecidableEq, Repr

/-- The globals named after a key with `_pressed` and with `_released`. -/
def pressed (key : Key) : KeyOrientation := ⟨key,true⟩
def released (key : Key) : KeyOrientation := ⟨key,false⟩

/-- The assignments of `init_keys`, in their order. -/
def init_keys : List (Nat × KeyOrientation) := [
  (0x01,pressed .escape),(0x02,pressed .number_1),(0x03,pressed .number_2),(0x04,pressed .number_3),
  (0x05,pressed .number_4),(0x06,pressed .number_5),(0x07,pressed .number_6),(0x08,pressed .number_7),
  (0x09,pressed .number_8),(0x0A,pressed .number_9),(0x0B,pressed .number_0),(0x0C,pressed .dash),
  (0x0D,pressed .equals),(0x0E,pressed .backspace),(0x0F,pressed .tab),(0x10,pressed .q),(0x11,pressed .w),
  (0x12,pressed .e),(0x13,pressed .r),(0x14,pressed .t),(0x15,pressed .y),(0x16,pressed .u),(0x17,pressed .i),
  (0x18,pressed .o),(0x19,pressed .p),(0x1A,pressed .left_bracket),(0x1B,pressed .right_bracket),
  (0x1C,pressed .enter),(0x1D,pressed .left_control),(0x1E,pressed .a),(0x1F,pressed .s),(0x20,pressed .d),
  (0x21,pressed .f),(0x22,pressed .g),(0x23,pressed .h),(0x24,pressed .j),(0x25,pressed .k),(0x26,pressed .l),
  (0x27,pressed .semicolon),(0x28,pressed .single_quote),(0x29,pressed .back_tick),(0x2A,pressed .left_shift),
  (0x2B,pressed .backslash),(0x2C,pressed .z),(0x2D,pressed .x),(0x2E,pressed .c),(0x2F,pressed .v),
  (0x30,pressed .b),(0x31,pressed .n),(0x32,pressed .m),(0x33,pressed .comma),(0x34,pressed .period),
  (0x35,pressed .slash),(0x36,pressed .right_shift),(0x37,pressed .keypad_star),(0x38,pressed .left_alt),
  (0x39,pressed .space),(0x3A,pressed .caps_lock),(0x3B,pressed .f1),(0x3C,pressed .f2),(0x3D,pressed .f3),
  (0x3E,pressed .f4),(0x3F,pressed .f5),(0x40,pressed .f6),(0x41,pressed .f7),(0x42,pressed .f8),
  (0x43,pressed .f9),(0x44,pressed .f10),(0x45,pressed .number_lock),(0x46,pressed .scroll_lock),
  (0x47,pressed .home),(0x48,pressed .cursor_up),(0x49,pressed .page_up),(0x4A,pressed .keypad_dash),
  (0x4B,pressed .cursor_left),(0x4C,pressed .keypad_5),(0x4D,pressed .cursor_right),(0x4E,pressed .keypad_plus),
  (0x4F,pressed .end_),(0x50,pressed .cursor_down),(0x51,pressed .page_down),(0x52,pressed .insert),
  (0x53,pressed .delete),(0x57,pressed .f11),(0x58,pressed .f12),(0x81,released .escape),
  (0x82,released .number_1),(0x83,released .number_2),(0x84,released .number_3),(0x85,released .number_4),
  (0x86,released .number_5),(0x87,released .number_6),(0x88,released .number_7),(0x89,released .number_8),
  (0x8A,released .number_9),(0x8B,released .number_0),(0x8C,released .dash),(0x8D,released .equals),
  (0x8E,released .backspace),(0x8F,released .tab),(0x90,released .q),(0x91,released .w),(0x92,released .e),
  (0x93,released .r),(0x94,released .t),(0x95,released .y),(0x96,released .u),(0x97,released .home),
  (0x98,released .o),(0x99,released .p),(0x9A,released .left_bracket),(0x9B,released .right_bracket),
  (0x9C,released .enter),(0x9D,released .left_control),(0x9E,released .a),(0x9F,released .s),(0xA0,released .d),
  (0xA1,released .f),(0xA2,released .g),(0xA3,released .h),(0xA4,released .j),(0xA5,released .k),
  (0xA6,released .l),(0xA7,released .semicolon),(0xA8,released .single_quote),(0xA9,released .back_tick),
  (0xAA,released .left_shift),(0xAB,released .backslash),(0xAC,released .z),(0xAD,released .x),
  (0xAE,released .c),(0xAF,released .v),(0xB0,released .b),(0xB1,released .n),(0xB2,released .m),
  (0xB3,released .comma),(0xB4,released .period),(0xB5,released .slash),(0xB6,released .right_shift),
  (0xB7,released .keypad_star),(0xB8,released .left_alt),(0xB9,released .space),(0xBA,pressed .caps_lock),
  (0xBB,released .f1),(0xBC,released .f2),(0xBD,released .f3),(0xBE,released .f4),(0xBF,released .f5),
  (0xC0,released .f6),(0xC1,released .f7),(0xC2,released .f8),(0xC3,released .f9),(0xC4,released .f10),
  (0xC5,released .number_lock),(0xC6,released .scroll_lock),(0xC7,released .keypad_7),
  (0xC8,released .cursor_up),(0xC9,released .page_up),(0xCA,released .keypad_dash),(0xCB,released .cursor_left),
  (0xCC,released .keypad_5),(0xCD,released .cursor_right),(0xCE,released .keypad_plus),(0xCF,released .end_),
  (0xD0,released .cursor_down),(0xD1,released .page_down),(0xD2,released .insert),(0xD3,released .page_down),
  (0xD7,released .f11),(0xD8,released .f12)]

/-- What they leave in the map; the other codes have the dummy. -/
def keymap : Nat → KeyOrientation :=
  init_keys.foldl (fun map entry code => if code = entry.1 then entry.2 else map code) (fun _ => pressed .dummy)

/-! ### The handler -/

/-- The globals of the driver, the terminals behind it, and the characters that
    were handed to `terminal_add_to_buffer`. -/
structure Keyboard where
  pressed : Key → Bool
  shortcut_received : Bool
  console : Console
  added : List Byte

def keyboard_init (console : Console) : Keyboard := ⟨fun _ => false,false,console,[]⟩

def Keyboard.setPressed (s : Keyboard) (key : Key) (value : Bool) : Keyboard :=
  { s with pressed := fun other => if other = key then value else s.pressed other }

def is_pressed (s : Keyboard) (key : Key) : Bool := s.pressed key
def is_shift_pressed (s : Keyboard) : Bool := is_pressed s .right_shift || is_pressed s .left_shift
def is_caps_lock_pressed (s : Keyboard) : Bool := is_pressed s .caps_lock
def is_control_pressed (s : Keyboard) : Bool := is_pressed s .right_control || is_pressed s .left_control
def is_alt_pressed (s : Keyboard) : Bool := is_pressed s .right_alt || is_pressed s .left_alt

def process_shortcuts (s : Keyboard) : Keyboard :=
  if is_control_pressed s && is_pressed s .l then
    { s with console := set_cursor_pos 0 0 (terminal_clear s.console), shortcut_received := true }
  -- switched off: all it does is to acknowledge the interrupt
  else if is_control_pressed s && is_pressed s .c then { s with shortcut_received := false }
  else if is_pressed s .backspace then
    { s.setPressed .backspace false with console := terminal_backspace s.console, shortcut_received := true }
  else if is_alt_pressed s && is_pressed s .f1 then
    { s.setPressed .f1 false with console := set_current_terminal 0 s.console, shortcut_received := true }
  else if is_alt_pressed s && is_pressed s .f2 then
    { s.setPressed .f2 false with console := set_current_terminal 1 s.console, shortcut_received := true }
  else if is_alt_pressed s && is_pressed s .f3 then
    { s.setPressed .f3 false with console := set_current_terminal 2 s.console, shortcut_received := true }
  else s

def char_to_print (s : Keyboard) (key : Key) : Char :=
  if is_shift_pressed s then key.fields.shift_char
  else if is_caps_lock_pressed s then key.fields.uppercase_char
  else key.fields.lowercase_char

/-- `print_key` while the running task is named `pName`. It returns an unsigned
    character, so that the -1 of its comment is 255. -/
def print_key (pName : Nat → Byte) (key : Key) (s : Keyboard) : Int × Keyboard :=
  if !s.pressed key || !key.fields.to_display || s.shortcut_received then (255,s) else
    let ch := ascii (char_to_print s key)
    (0,{ s with console := terminal_add_to_buffer pName ch s.console, added := s.added ++ [ch] })

def process_keypress (pName : Nat → Byte) (scan_code : Nat) (s : Keyboard) : Keyboard :=
  let entry := keymap scan_code
  let s := s.setPressed entry.keyboard_key entry.orientation
  let s := process_shortcuts s
  let s := (print_key pName entry.keyboard_key s).2
  { s with shortcut_received := false }

end Mp3Kernel.Keys

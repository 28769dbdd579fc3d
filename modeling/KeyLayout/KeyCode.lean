import KeyLayout.Numeral

namespace KeyLayout

/-! Key codes are logical identifiers, independent of how a device is wired.  A code
below `KeyCode.limit` may occur in a layout; some of these have a label. -/

abbrev KeyCode := Int

/-- A scan code or usage code, as a device reports it. -/
abbrev DeviceCode := Int

namespace KeyCode

def limit : Int := 8192

def InRange (code : KeyCode) : Prop :=
  0 ≤ code ∧ code < limit

instance (code : KeyCode) : Decidable code.InRange :=
  inferInstanceAs (Decidable (_ ∧ _))

/-- The labels of the codes from zero on. -/
def labels : Array Text :=
  (#["UNKNOWN", "SOFT_LEFT", "SOFT_RIGHT", "HOME", "BACK", "CALL", "ENDCALL", "0", "1", "2", "3",
    "4", "5", "6", "7", "8", "9", "STAR", "POUND", "DPAD_UP", "DPAD_DOWN", "DPAD_LEFT",
    "DPAD_RIGHT", "DPAD_CENTER", "VOLUME_UP", "VOLUME_DOWN", "POWER", "CAMERA", "CLEAR", "A",
    "B", "C", "D", "E", "F", "G", "H", "I", "J", "K", "L", "M", "N", "O", "P", "Q", "R", "S",
    "T", "U", "V", "W", "X", "Y", "Z", "COMMA", "PERIOD", "ALT_LEFT", "ALT_RIGHT", "SHIFT_LEFT",
    "SHIFT_RIGHT", "TAB", "SPACE", "SYM", "EXPLORER", "ENVELOPE", "ENTER", "DEL", "GRAVE",
    "MINUS", "EQUALS", "LEFT_BRACKET", "RIGHT_BRACKET", "BACKSLASH", "SEMICOLON", "APOSTROPHE",
    "SLASH", "AT", "NUM", "HEADSETHOOK", "FOCUS", "PLUS", "MENU", "NOTIFICATION", "SEARCH",
    "MEDIA_PLAY_PAUSE", "MEDIA_STOP", "MEDIA_NEXT", "MEDIA_PREVIOUS", "MEDIA_REWIND",
    "MEDIA_FAST_FORWARD", "MUTE", "PAGE_UP", "PAGE_DOWN", "PICTSYMBOLS", "SWITCH_CHARSET",
    "BUTTON_A", "BUTTON_B", "BUTTON_C", "BUTTON_X", "BUTTON_Y", "BUTTON_Z", "BUTTON_L1",
    "BUTTON_R1", "BUTTON_L2", "BUTTON_R2", "BUTTON_THUMBL", "BUTTON_THUMBR", "BUTTON_START",
    "BUTTON_SELECT", "BUTTON_MODE", "ESCAPE", "FORWARD_DEL", "CTRL_LEFT", "CTRL_RIGHT",
    "CAPS_LOCK", "SCROLL_LOCK", "META_LEFT", "META_RIGHT", "FUNCTION", "SYSRQ", "BREAK",
    "MOVE_HOME", "MOVE_END", "INSERT", "FORWARD", "MEDIA_PLAY", "MEDIA_PAUSE", "MEDIA_CLOSE",
    "MEDIA_EJECT", "MEDIA_RECORD", "F1", "F2", "F3", "F4", "F5", "F6", "F7", "F8", "F9", "F10",
    "F11", "F12", "NUM_LOCK", "NUMPAD_0", "NUMPAD_1", "NUMPAD_2", "NUMPAD_3", "NUMPAD_4",
    "NUMPAD_5", "NUMPAD_6", "NUMPAD_7", "NUMPAD_8", "NUMPAD_9", "NUMPAD_DIVIDE",
    "NUMPAD_MULTIPLY", "NUMPAD_SUBTRACT", "NUMPAD_ADD", "NUMPAD_DOT", "NUMPAD_COMMA",
    "NUMPAD_ENTER", "NUMPAD_EQUALS", "NUMPAD_LEFT_PAREN", "NUMPAD_RIGHT_PAREN", "VOLUME_MUTE",
    "INFO", "CHANNEL_UP", "CHANNEL_DOWN", "ZOOM_IN", "ZOOM_OUT", "TV", "WINDOW", "GUIDE", "DVR",
    "BOOKMARK", "CAPTIONS", "SETTINGS", "TV_POWER", "TV_INPUT", "STB_POWER", "STB_INPUT",
    "AVR_POWER", "AVR_INPUT", "PROG_RED", "PROG_GREEN", "PROG_YELLOW", "PROG_BLUE",
    "APP_SWITCH", "BUTTON_1", "BUTTON_2", "BUTTON_3", "BUTTON_4", "BUTTON_5", "BUTTON_6",
    "BUTTON_7", "BUTTON_8", "BUTTON_9", "BUTTON_10", "BUTTON_11", "BUTTON_12", "BUTTON_13",
    "BUTTON_14", "BUTTON_15", "BUTTON_16", "LANGUAGE_SWITCH", "MANNER_MODE", "3D_MODE",
    "CONTACTS", "CALENDAR", "MUSIC", "CALCULATOR", "ZENKAKU_HANKAKU", "EISU", "MUHENKAN",
    "HENKAN", "KATAKANA_HIRAGANA", "YEN", "RO", "KANA", "ASSIST"] : Array String).map Text.ofString

def ofLabel? (label : Text) : Option KeyCode :=
  (labels.findIdx? (· == label)).map Int.ofNat

def ownLabel? : KeyCode → Option Text
  | .ofNat index => labels[index]?
  | .negSucc _ => none

/-- The label of a code, or its decimal digits if it has none. -/
def label (code : KeyCode) : Text :=
  code.ownLabel?.getD (Text.ofInt code)

/-- The label of any code, unless it would be a numeral that cannot be written. -/
def writtenLabel? (code : KeyCode) : Option Text :=
  code.ownLabel?.or (Numeral.write? code)

/-- What labels leave out of the full name of a code. -/
def namespaceText : Text := "KEYCODE_"

def fullName (label : Text) : Text :=
  if namespaceText.isPrefixOf label then label else namespaceText ++ label

end KeyCode

inductive KeyPress where
  | released
  | pressed
  | repeated
  deriving DecidableEq

def KeyPress.name : KeyPress → Text
  | .released => "RELEASED"
  | .pressed => "PRESSED"
  | .repeated => "REPEATED"

end KeyLayout

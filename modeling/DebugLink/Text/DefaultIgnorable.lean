import DebugLink.Text.Ranges

/-!
# Characters shown as nothing by default

Joiners, fillers, variation selectors and what is set aside for more of them (property
Default_Ignorable_Code_Point). The Hangul fillers are letters by their general category, yet show
nothing.
-/

namespace DebugLink.Text

/-- The code points with that property. -/
def defaultIgnorableRanges : Ranges :=
  [(0x00ad, 0x00ad), (0x034f, 0x034f), (0x061c, 0x061c), (0x115f, 0x1160), (0x17b4, 0x17b5),
   (0x180b, 0x180f), (0x200b, 0x200f), (0x202a, 0x202e), (0x2060, 0x206f), (0x3164, 0x3164),
   (0xfe00, 0xfe0f), (0xfeff, 0xfeff), (0xffa0, 0xffa0), (0xfff0, 0xfff8), (0x1bca0, 0x1bca3),
   (0x1d173, 0x1d17a), (0xe0000, 0xe0fff)]

/-- Is the character shown as nothing by default? -/
def isDefaultIgnorable (c : Char) : Bool :=
  defaultIgnorableRanges.holds c.toNat

end DebugLink.Text

import ScriptVM.Text.Utf8

/-!
# Digests

Texts and byte strings are digested into 64-bit words. What matters of the two digests is only
that they are functions, so a machine takes them as a pair. The standard pair digests byte
sequences; texts and byte strings fall into separate families, as a byte string is marked by a
leading byte that no UTF-8 text contains.
-/
namespace ScriptVM.Text

/-- The digest of a byte sequence: multiply and mix, byte by byte. -/
def digest (bytes : List UInt8) : UInt64 :=
  bytes.foldl (fun h b => (h ^^^ b.toUInt64) * 0x100000001b3) 0xcbf29ce484222325

/-- The digest of a text. -/
def digestText (s : String) : Int64 := (digest (encodeUtf8 s)).toInt64

/-- The digest of a byte string. -/
def digestBytes (bytes : List UInt8) : Int64 := (digest (0xFF :: bytes)).toInt64

end ScriptVM.Text

namespace ScriptVM

/-- How texts and byte strings are digested. -/
structure Digests where
  text : String → Int64
  bytes : List UInt8 → Int64

/-- A pair of digests to run a machine with. What is proved of machines is proved for every pair. -/
def Digests.standard : Digests := ⟨Text.digestText, Text.digestBytes⟩

end ScriptVM

/-! Size limits of the library. Readers, log events and the files of a host keep within them. -/
namespace TokenStream.Limits

/-- Bytes a dump file may have (16 MiB). -/
def dumpBytes : Nat := 16 * 1024 * 1024

/-- Tokens one dump may produce. -/
def dumpTokens : Nat := 1000000

/-- Brackets that may be open at once while a dump is linked. -/
def openBrackets : Nat := 10000

/-- Characters of a log message; the rest is cut off. -/
def messageChars : Nat := 10000

/-- Slots of one chain; a slot's index fits in 32 bits. -/
def slots : Nat := 4294967295

/-- Bytes of one name in a path. -/
def nameBytes : Nat := 255

/-- Bytes of a whole path. -/
def pathBytes : Nat := 4095

/-- Arrays and tables of a TOML document that may be open at once, and parts that a dotted key of it
may have. -/
def tomlDepth : Nat := 79

end TokenStream.Limits

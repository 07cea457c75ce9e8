/-! What is found under the path of a file. -/
namespace TokenStream

/-- The size of a file is known before its bytes are read. -/
structure Contents where
  size : Nat
  bytes : Thunk ByteArray

namespace Contents

def ofBytes (bytes : ByteArray) : Contents where
  size := bytes.size
  bytes := bytes

def ofText (text : String) : Contents :=
  ofBytes text.toUTF8

/-- That many zero bytes, which are made only if they are read. -/
def zeros (size : Nat) : Contents where
  size
  bytes := Thunk.mk fun _ => size.fold (fun _ _ bytes => bytes.push 0) ByteArray.empty

def append (c : Contents) (text : String) : Contents :=
  ofBytes (c.bytes.get ++ text.toUTF8)

def text? (c : Contents) : Option String :=
  String.fromUTF8? c.bytes.get

end Contents

inductive Found
  | missing (reason : String)
  | unreadable (reason : String)
  | file (contents : Contents)

end TokenStream

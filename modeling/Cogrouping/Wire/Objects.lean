import Cogrouping.Dictionary
import Cogrouping.Value

/-!
Codecs for opaque objects, by name. The bytes of an object carry no order.
-/

namespace Cogrouping

structure ObjectCodec where
  /-- The bytes written for an object, and whether writing it succeeded in the end. -/
  encode : Json → Bytes × Except Error Unit
  decode : Bytes → Except Error Json

def ObjectCodec.json : ObjectCodec where
  encode json := (json.write.flatMap Utf8.encodeChar, .ok ())
  decode bytes :=
    match Utf8.decode bytes with
    | .error _ => .error (.codec .notJson)
    | .ok text =>
        match Json.ofText? text with
        | some json => .ok json
        | none => .error (.codec .notJson)

structure ObjectCodecs where
  codecs : Dictionary String ObjectCodec

namespace ObjectCodecs

def empty : ObjectCodecs := ⟨∅⟩

def register (codecs : ObjectCodecs) (name : String) (codec : ObjectCodec) : ObjectCodecs :=
  ⟨codecs.codecs.insert name codec⟩

def standard : ObjectCodecs := empty.register "json" .json

def contains (codecs : ObjectCodecs) (name : String) : Bool := codecs.codecs.contains name

def find (codecs : ObjectCodecs) (name : String) : Except Error ObjectCodec :=
  match codecs.codecs.find? name with
  | some codec => .ok codec
  | none => .error (.config (.noObjectCodec name))

end ObjectCodecs

end Cogrouping

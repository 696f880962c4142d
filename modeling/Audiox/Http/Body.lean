import Audiox.Config.Basic
import Mathlib

/-!
# Bodies of requests

A body is a text of `key=value` parts.
-/

namespace Audiox.Http

open ByteCodec Config

def newline : UInt8 := chr '\n'

/-- Cuts white space at both ends. -/
def trimSpace (s : Bytes) : Bytes :=
  (s.dropWhile Config.isSpace).rdropWhile Config.isSpace

/-- The value of a key in a body of `key=value` parts. -/
def bodyGetValue (body key : Bytes) (size : Nat) : Option Bytes :=
  if body.length ≥ 512 then none
  else
    ((((cstr body).map fun c => if c = chr '&' then newline else c).splitOn
      newline).findSome? fun line =>
        if chr '=' ∈ line ∧
            trimSpace (line.takeWhile (· ≠ chr '=')) = key then
          some (trimSpace ((line.dropWhile (· ≠ chr '=')).drop 1))
        else none).map (copyBounded size)

end Audiox.Http

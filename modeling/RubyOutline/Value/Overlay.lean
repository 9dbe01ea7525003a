/-
RubyOutline/Value/Overlay.lean

One value laid over another.  Maps are merged key by key, at every depth; anything else above
hides what is below.
-/
import RubyOutline.Value

namespace RubyOutline.Value

mutual

/-- A value laid over the one below. -/
def overlay (below : Value) : Value → Value
  | .map entries =>
    match below with
    | .map old => .map (overlayEntries old entries)
    | _ => .map entries
  | v => v

/-- The entries of a map laid over those of another. -/
def overlayEntries (below : List (Value × Value)) : List (Value × Value) → List (Value × Value)
  | [] => below
  | (k, v) :: rest =>
    let merged := match below.find? (·.1.sameKey k) with
      | some (_, old) => overlay old v
      | none => v
    overlayEntries (insertEntry below k merged) rest

end

end RubyOutline.Value

import AutomatonSketch.Editor.Mode
import AutomatonSketch.Json.Record

/-! The JSON form of editor modes. -/

namespace AutomatonSketch.EditorMode

def toJson (m : EditorMode) : Json := .text m.name

def ofJson? (j : Json) : Option EditorMode := (Json.choice? j).bind ofName?

end AutomatonSketch.EditorMode

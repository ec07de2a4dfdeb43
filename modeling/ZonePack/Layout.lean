import ZonePack.Name
import ZonePack.Path

/-!
# ZonePack.Layout

Where generated files go: two folders of a data pack, one for predicates and one
for functions, and a file for each name in them.
-/

namespace ZonePack

namespace Layout

/-- The folder of the namespace inside a pack. -/
def spaceFolder : Path := (Path.mk "data").join ⟨Name.space⟩

/-- The folder of predicates inside a pack. -/
def predicateFolder : Path := spaceFolder.join ⟨"predicates"⟩

/-- The folder of generated functions inside a pack. -/
def scriptFolder : Path := (spaceFolder.join ⟨"functions"⟩).join ⟨Name.scriptFolder⟩

/-- The file of the predicate called `name`. -/
def predicateFile (name : String) : Path := predicateFolder.join ⟨name ++ ".json"⟩

/-- The file of the generated function called `name`. -/
def scriptFile (name : String) : Path := scriptFolder.join ⟨name ++ ".mcfunction"⟩

end Layout

end ZonePack

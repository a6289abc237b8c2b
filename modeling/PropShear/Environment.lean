/-! Environment variables. -/
namespace PropShear

structure Environment where
  settings : List (String × String)

namespace Environment

def get? (e : Environment) (name : String) : Option String := e.settings.lookup name

/-- The value of a variable that is set and not empty. -/
def given? (e : Environment) (name : String) : Option String :=
  (e.get? name).filter (!·.isEmpty)

end Environment
end PropShear

/-! The three dialects a source file can be written in. -/
namespace PropShear

inductive Dialect where
  /-- With JSX elements and without types. -/
  | javascript
  /-- With types and without JSX elements. -/
  | typescript
  /-- With types and JSX elements. -/
  | tsx
deriving DecidableEq, Repr

namespace Dialect

def name : Dialect → String
  | javascript => "javascript"
  | typescript => "typescript"
  | tsx => "tsx"

def hasTypes : Dialect → Bool
  | javascript => false
  | _ => true

def hasElements : Dialect → Bool
  | typescript => false
  | _ => true

/-- The dialect that a file extension announces, in lower case and with its dot. -/
def ofExtension : String → Dialect
  | ".ts" | ".mts" | ".cts" => typescript
  | ".tsx" => tsx
  | _ => javascript

end Dialect
end PropShear

/-
String bindings (combind.c, comutil.c).

A string binding is `uuid@protseq:netaddr[endpoint,tag=value,...]`, where parts that
are not there lose their delimiters.  A string is the list of its characters, and what
the code tests as the terminating null is its end.
-/
import Mathlib

namespace StringBinding

abbrev Str := List Char

/-! ### String utilities -/

/-- `rpc__strcspn`: the number of characters up to and with the first unescaped one of the
terminators, or 0.  After an escape the code passes over one character more than it counts;
where that is behind the end of the string, the model stops. -/
def strcspn (termSet : Str) : Str → Bool → ℕ → ℕ
  | [], _, _ => 0
  | '\\' :: [], _, _ => 0
  | '\\' :: _ :: [], _, _ => 0
  | '\\' :: d :: _ :: ptr, _, count => strcspn termSet ptr (d = '\\') (count + 1)
  | _ :: [], true, _ => 0
  | _ :: _ :: ptr, true, count => strcspn termSet ptr false (count + 1)
  | c :: ptr, false, count =>
    if c ∈ termSet then count else strcspn termSet ptr false (count + 1)

/-- `rpc__strsqz`: unescaped spaces and tabs are squeezed out. -/
def strsqz : Str → Str
  | [] => []
  | '\\' :: [] => ['\\']
  | '\\' :: c :: ptr => '\\' :: c :: strsqz ptr
  | c :: ptr => if c = ' ' ∨ c = '\t' then strsqz ptr else c :: strsqz ptr

/-- `strncmp` finds no difference. -/
def strncmpEq : Str → Str → ℕ → Bool
  | _, _, 0 => true
  | [], [], _ => true
  | c :: s, d :: t, n + 1 => c = d && strncmpEq s t n
  | _, _, _ => false

/-! ### Composing -/

/-- `rpc_string_binding_compose`; `none` is a null pointer. -/
def compose (uuid protseq netaddr endpoint networkOptions : Option Str) : Str :=
  (match uuid with
    | some (c :: s) => (c :: s) ++ ['@']
    | _ => []) ++
  (match protseq with
    | some s => s ++ [':']
    | none => []) ++
  netaddr.getD [] ++
  if endpoint.isSome ∨ networkOptions.isSome then
    ['['] ++ endpoint.getD [] ++
      (if endpoint.isSome ∧ networkOptions.getD [] ≠ [] then [','] else []) ++
      networkOptions.getD [] ++ [']']
  else []

/-! ### Parsing -/

/-- What `rpc_string_binding_parse` returns to a caller that asks for all parts. -/
structure Parsed where
  uuid : Str
  protseq : Str
  netaddr : Str
  endpoint : Str
  networkOptions : Str
deriving DecidableEq, Repr

/-- Leading white space before a tag is skipped. -/
def skipBlanks : Str → ℕ → Str × ℕ
  | [], count => ([], count)
  | c :: ptr, count =>
    if c = ' ' ∨ c = '\t' then skipBlanks ptr (count - 1) else (c :: ptr, count)

def endpointTag : Str := ['e', 'n', 'd', 'p', 'o', 'i', 'n', 't']

/-- Whether the next token is an endpoint, and the text from the endpoint or the tag on. -/
def nextToken (ptr : Str) : Str × Bool :=
  let count := strcspn ['=', ','] ptr false 1
  if count = 0 ∨ ptr[count - 1]? ≠ some '=' then (ptr, true)
  else
    let (ptr, count) := skipBlanks ptr count
    if strncmpEq ptr endpointTag (count - 1) then (ptr.drop count, true) else (ptr, false)

/-- The loop over the bracketed part, with the endpoint and the options found so far;
`none` is `rpc_s_invalid_string_binding`.  Every token is at least one character long. -/
def tokenLoop : ℕ → Str → Option Str → Str → Option (Option Str × Str)
  | 0, _, endpoint, options => some (endpoint, options)
  | n + 1, ptr, endpoint, options =>
    if ptr = [] then some (endpoint, options)
    else
      match nextToken ptr with
      | (ptr, true) =>
        let count := strcspn [',', ']'] ptr false 1
        if count = 0 ∨ endpoint ≠ none then none
        else
          tokenLoop n (ptr.drop count) (some ((ptr.take (count - 1)).filter (· ≠ '\\'))) options
      | (ptr, false) =>
        let count := strcspn [',', ']'] ptr false 1
        if count = 0 then none
        else tokenLoop n (ptr.drop count) endpoint (options ++ ptr.take count)

/-- `rpc_string_binding_parse`. -/
def parse (stringBinding : Str) : Option Parsed := do
  let ptr := stringBinding
  let count := strcspn ['@'] ptr false 1
  let uuid := ptr.take (count - 1)
  let ptr := ptr.drop count
  let count := strcspn [':'] ptr false 1
  let protseq := ptr.take (count - 1)
  let ptr := ptr.drop count
  let count := strcspn ['['] ptr false 1
  if count = 0 then
    some { uuid := strsqz uuid, protseq := strsqz protseq, netaddr := strsqz ptr
           endpoint := [], networkOptions := [] }
  else
    let netaddr := ptr.take (count - 1)
    let ptr := ptr.drop count
    let (endpoint, options) ← tokenLoop ptr.length ptr none []
    -- the separator behind the last option is clipped off
    some { uuid := strsqz uuid, protseq := strsqz protseq, netaddr := strsqz netaddr
           endpoint := strsqz (endpoint.getD []), networkOptions := (strsqz options).dropLast }

end StringBinding

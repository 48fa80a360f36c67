import DaqInterface.Library.Dict

/-!
# The contexts of an object

A `ContextObject` holds context managers.  A `with` statement over it enters them in turn and
stores what they yield in attributes of the object; at its end it leaves them in the reverse
order.  How each manager answers is a parameter; what is recorded is which one was entered and
which one was told to leave.
-/

namespace DaqInterface

/-- The exceptions: those of `ContextObject` itself and those of others. -/
inductive ContextError (E : Type)
  | assertion_error
  | type_error
  | raised (e : E)
  deriving DecidableEq, Repr

/-- What a context manager yields: `None`, a single value, or a tuple. -/
inductive Yielded (V : Type)
  | nothing
  | scalar (value : V)
  | several (values : List V)
  deriving DecidableEq, Repr

/-- A context manager, by what its two operations do.  `exit` receives the exception that ends
the `with` statement, if there is one, and says what it raises itself. -/
structure ContextManager (V E : Type) where
  enter : Except (ContextError E) (Yielded V)
  exit : Option (ContextError E) → Option (ContextError E)

/-- An element of `contexts`: names of attributes and, last, the manager. -/
structure ContextVec (V E : Type) where
  names : List String
  context : ContextManager V E

/-- What is seen of the managers, which are known by their places in `contexts`. -/
inductive ContextEvent
  | entered (place : Nat)
  | exited (place : Nat)
  deriving DecidableEq, Repr

/-- The place of a manager that was entered. -/
def ContextEvent.entered? : ContextEvent → Option Nat
  | .entered place => some place
  | .exited _ => none

/-- The place of a manager that was told to leave. -/
def ContextEvent.exited? : ContextEvent → Option Nat
  | .entered _ => none
  | .exited place => some place

namespace ContextObject

variable {V E : Type}

/-- The values that a manager yields become attributes. -/
@[grind =] def set_attributes (names : List String) (attributes : List (String × Yielded V)) :
    Yielded V → Except (ContextError E) (List (String × Yielded V))
  | .nothing => .ok attributes
  | .scalar value =>
    match names with
    | [name] => .ok (Dict.assign name (.scalar value) attributes)
    -- a single value has no `len`
    | _ => .error .type_error
  | .several values =>
    match names with
    | [name] => .ok (Dict.assign name (.several values) attributes)
    | _ =>
      if values.length = names.length then
        .ok ((values.zip names).foldl
          (fun attributes entry => Dict.assign entry.2 (.scalar entry.1) attributes) attributes)
      else .error .assertion_error

/-- `__enter__` from the manager at a place on. -/
@[grind =] def enter (place : Nat) (attributes : List (String × Yielded V)) : List (ContextVec V E) →
    List ContextEvent × Except (ContextError E) (List (String × Yielded V))
  | [] => ([], .ok attributes)
  | vec :: rest =>
    match vec.context.enter with
    | .error e => ([], .error e)
    | .ok vals =>
      match set_attributes vec.names attributes vals with
      | .error e => ([.entered place], .error e)
      | .ok attributes' =>
        let r := enter (place + 1) attributes' rest
        (.entered place :: r.1, r.2)

/-- `__exit__` over managers with their places, in the order in which they are told to leave. -/
@[grind =] def exit (args : Option (ContextError E)) :
    List (ContextVec V E × Nat) → List ContextEvent × Option (ContextError E)
  | [] => ([], none)
  | (vec, place) :: rest =>
    match vec.context.exit args with
    | some e => ([.exited place], some e)
    | none =>
      let r := exit args rest
      (.exited place :: r.1, r.2)

/-- `with obj: body`: what the managers see, the attributes in the body, and the exception that
leaves the statement.  The body is known by how it ends. -/
def with_statement (contexts : List (ContextVec V E)) (attributes : List (String × Yielded V))
    (body : Option (ContextError E)) :
    List ContextEvent × Option (List (String × Yielded V)) × Option (ContextError E) :=
  match enter 0 attributes contexts with
  | (events, .error e) => (events, none, some e)
  | (events, .ok attributes') =>
    match exit body contexts.zipIdx.reverse with
    | (exits, some e) => (events ++ exits, some attributes', some e)
    -- `__exit__` returns `None`: an exception of the body goes on
    | (exits, none) => (events ++ exits, some attributes', body)

end ContextObject

/-- The contexts of a component: its server and its runner. -/
def Component.contexts {V E : Type} (rpc_server runner : ContextManager V E) :
    List (ContextVec V E) :=
  [⟨["rpc_server"], rpc_server⟩, ⟨["runner"], runner⟩]

end DaqInterface

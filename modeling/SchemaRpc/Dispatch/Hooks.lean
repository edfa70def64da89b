import SchemaRpc.Http.Basic

/-!
# Hooks

What an application does around each of its procedures. Per request run the context factory, the request hook, the
middleware in order and, once there is a result, the response hook; the error observer hears of every failure.
-/

namespace SchemaRpc

/-- How an observer takes what it is told. -/
inductive Observation where
  | heard
  | panicked
  deriving DecidableEq

/-- A hook that may change the context, also when it fails. Besides the request it sees the procedure's name. -/
abbrev ContextHook (γ : Type) := Http.Request → String → γ → Except RpcError Unit × γ

structure Hooks (γ : Type) where
  createContext : Http.Request → String → Except RpcError γ
  onRequest : ContextHook γ := fun _ _ context => (.ok (), context)
  middleware : List (ContextHook γ) := []
  beforeResponse : Http.Request → String → γ → Json → Except RpcError Unit := fun _ _ _ _ => .ok ()
  /-- There is no name before the route is found, and no context before it is made. -/
  onError : Http.Request → Option String → Option γ → RpcError → Observation := fun _ _ _ _ => .heard

end SchemaRpc

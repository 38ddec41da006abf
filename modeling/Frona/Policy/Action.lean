import Frona.Policy.Model

set_option autoImplicit false

namespace Frona.Policy

section Handle

def isHandleChar (c : Char) : Bool := c.isLower || c.isDigit || c = '-' || c = '_'

def isValidHandle (text : String) : Bool :=
  decide (2 ≤ text.toList.length) && decide (text.toList.length ≤ 32) &&
    (text.toList.head?.any Char.isLower) && text.toList.all isHandleChar

@[ext] structure Handle where
  text : String
  valid : isValidHandle text = true
  deriving DecidableEq

theorem Handle.no_colon (handle : Handle) : ':' ∉ handle.text.toList := by
  intro inside
  have valid := handle.valid
  simp only [isValidHandle, Bool.and_eq_true, List.all_eq_true] at valid
  have := valid.2 ':' inside
  revert this
  decide

end Handle

section Actions

@[ext] structure PolicyContact where
  id : String
  userId : String
  name : String
  address : String
  addresses : List String
  deriving DecidableEq

inductive PolicyAction where
  | invokeTool (toolName toolGroup : String)
  | delegateTask (targetAgentId : String) (targetHandle : Handle)
  | sendMessage (targetAgentId : String) (targetHandle : Handle)
  | receiveSignal (connectorId : String) (channelHandle : Handle) (sender : PolicyContact)
      (pairedAddresses : List String)
  | receiveMessage (connectorId : String) (channelHandle : Handle) (sender : PolicyContact)
      (pairedAddresses : List String)
  | listUsers
  | manageUsers (targetUserId : String)
  | viewUsageAnalytics
  deriving DecidableEq

def PolicyAction.cedarActionName : PolicyAction → String
  | .invokeTool .. => "invoke_tool"
  | .delegateTask .. => "delegate_task"
  | .sendMessage .. => "send_message"
  | .receiveSignal .. => "receive_signal"
  | .receiveMessage .. => "receive_message"
  | .listUsers => "list_users"
  | .manageUsers .. => "manage_users"
  | .viewUsageAnalytics => "view_usage_analytics"

end Actions

section Debug

structure Quoting where
  quote : String → String
  opens : ∀ s, ∃ rest, (quote s).toList = '"' :: rest
  closes : ∀ s t (rest rest' : List Char),
    (quote s).toList ++ rest = (quote t).toList ++ rest' → s = t ∧ rest = rest'

variable (quoting : Quoting)

def Handle.debug (handle : Handle) : String := "Handle(" ++ quoting.quote handle.text ++ ")"

def debugItems : List String → String
  | [] => "]"
  | s :: rest => ", " ++ quoting.quote s ++ debugItems rest

def debugList : List String → String
  | [] => "[]"
  | s :: rest => "[" ++ quoting.quote s ++ debugItems quoting rest

def PolicyContact.debug (contact : PolicyContact) : String :=
  "PolicyContact \x7b id: " ++ quoting.quote contact.id ++
    ", user_id: " ++ quoting.quote contact.userId ++
    ", name: " ++ quoting.quote contact.name ++
    ", address: " ++ quoting.quote contact.address ++
    ", addresses: " ++ debugList quoting contact.addresses ++ " \x7d"

def PolicyAction.variant : PolicyAction → String
  | .invokeTool .. => "InvokeTool"
  | .delegateTask .. => "DelegateTask"
  | .sendMessage .. => "SendMessage"
  | .receiveSignal .. => "ReceiveSignal"
  | .receiveMessage .. => "ReceiveMessage"
  | .listUsers => "ListUsers"
  | .manageUsers .. => "ManageUsers"
  | .viewUsageAnalytics => "ViewUsageAnalytics"

-- The unit variants have no fields.
def PolicyAction.debugFields : PolicyAction → Option String
  | .invokeTool toolName toolGroup =>
      some ("\x7b tool_name: " ++ quoting.quote toolName ++
        ", tool_group: " ++ quoting.quote toolGroup ++ " \x7d")
  | .delegateTask targetAgentId targetHandle | .sendMessage targetAgentId targetHandle =>
      some ("\x7b target_agent_id: " ++ quoting.quote targetAgentId ++
        ", target_handle: " ++ targetHandle.debug quoting ++ " \x7d")
  | .receiveSignal connectorId channelHandle sender pairedAddresses
  | .receiveMessage connectorId channelHandle sender pairedAddresses =>
      some ("\x7b connector_id: " ++ quoting.quote connectorId ++
        ", channel_handle: " ++ channelHandle.debug quoting ++
        ", sender: " ++ sender.debug quoting ++
        ", paired_addresses: " ++ debugList quoting pairedAddresses ++ " \x7d")
  | .manageUsers targetUserId => some ("\x7b target_user_id: " ++ quoting.quote targetUserId ++ " \x7d")
  | .listUsers | .viewUsageAnalytics => none

def PolicyAction.debug (action : PolicyAction) : String :=
  match action.debugFields quoting with
  | none => action.variant
  | some fields => action.variant ++ " " ++ fields

def Delimited {V : Type} (debug : V → String) : Prop :=
  ∀ v w (rest rest' : List Char),
    (debug v).toList ++ rest = (debug w).toList ++ rest' → v = w ∧ rest = rest'

theorem Delimited.after {V : Type} {debug : V → String} (delimited : Delimited debug) {v w : V}
    {before rest rest' : List Char}
    (same : before ++ ((debug v).toList ++ rest) = before ++ ((debug w).toList ++ rest')) :
    v = w ∧ rest = rest' :=
  delimited v w rest rest' (List.append_cancel_left same)

theorem delimited_quote : Delimited quoting.quote := quoting.closes

theorem delimited_handle : Delimited (Handle.debug quoting) := by
  intro v w rest rest' same
  simp only [Handle.debug, String.toList_append, List.append_assoc] at same
  obtain ⟨text, tail⟩ := (delimited_quote quoting).after same
  exact ⟨Handle.ext text, List.append_cancel_left tail⟩

theorem delimited_items : Delimited (debugItems quoting) := by
  intro v w rest rest' same
  induction v generalizing w with
  | nil =>
      cases w with
      | nil => exact ⟨rfl, List.append_cancel_left same⟩
      | cons t w => simp [debugItems] at same
  | cons s v ih =>
      cases w with
      | nil => simp [debugItems] at same
      | cons t w =>
          simp only [debugItems, String.toList_append, List.append_assoc] at same
          obtain ⟨head, tail⟩ := (delimited_quote quoting).after same
          obtain ⟨items, after⟩ := ih w tail
          exact ⟨by rw [head, items], after⟩

theorem delimited_list : Delimited (debugList quoting) := by
  intro v w rest rest' same
  cases v with
  | nil =>
      cases w with
      | nil => exact ⟨rfl, List.append_cancel_left same⟩
      | cons t w =>
          obtain ⟨quoted, opens⟩ := quoting.opens t
          simp [debugList, opens] at same
  | cons s v =>
      cases w with
      | nil =>
          obtain ⟨quoted, opens⟩ := quoting.opens s
          simp [debugList, opens] at same
      | cons t w =>
          simp only [debugList, String.toList_append, List.append_assoc] at same
          obtain ⟨head, tail⟩ := (delimited_quote quoting).after same
          obtain ⟨items, after⟩ := delimited_items quoting v w _ _ tail
          exact ⟨by rw [head, items], after⟩

theorem delimited_contact : Delimited (PolicyContact.debug quoting) := by
  intro v w rest rest' same
  unfold PolicyContact.debug at same
  simp only [String.toList_append, List.append_assoc] at same
  obtain ⟨id, same⟩ := (delimited_quote quoting).after same
  obtain ⟨userId, same⟩ := (delimited_quote quoting).after same
  obtain ⟨name, same⟩ := (delimited_quote quoting).after same
  obtain ⟨address, same⟩ := (delimited_quote quoting).after same
  obtain ⟨addresses, same⟩ := (delimited_list quoting).after same
  exact ⟨PolicyContact.ext id userId name address addresses, List.append_cancel_left same⟩

theorem takeWhile_stop {stop : Char} {before : List Char} (rest : List Char)
    (none : stop ∉ before) :
    (before ++ stop :: rest).takeWhile (fun c => decide (c ≠ stop)) = before := by
  have whole : ∀ c ∈ before, decide (c ≠ stop) = true := by
    intro c inside
    have : c ≠ stop := fun same => none (same ▸ inside)
    simpa using this
  rw [List.takeWhile_append_of_pos whole]
  simp

theorem PolicyAction.variant_no_blank (action : PolicyAction) : ' ' ∉ action.variant.toList := by
  cases action <;> simp [variant]

-- The variant ends at the first blank, if there are fields at all.
theorem PolicyAction.takeWhile_debug (action : PolicyAction) :
    (action.debug quoting ++ " ").toList.takeWhile (fun c => decide (c ≠ ' ')) =
      action.variant.toList := by
  cases fields : action.debugFields quoting with
  | none =>
      simp only [debug, fields, String.toList_append]
      exact takeWhile_stop [] action.variant_no_blank
  | some text =>
      simp only [debug, fields, String.toList_append, List.append_assoc]
      exact takeWhile_stop _ action.variant_no_blank

theorem PolicyAction.variant_eq (action action' : PolicyAction)
    (same : action.debug quoting = action'.debug quoting) : action.variant = action'.variant := by
  apply String.toList_injective
  rw [← takeWhile_debug quoting, ← takeWhile_debug quoting, same]

theorem PolicyAction.fields_eq (action action' : PolicyAction)
    (same : action.debug quoting = action'.debug quoting)
    (variants : action.variant = action'.variant) :
    action.debugFields quoting = action'.debugFields quoting := by
  unfold debug at same
  rw [variants] at same
  have lists := congrArg String.toList same
  cases fields : action.debugFields quoting with
  | none =>
      cases fields' : action'.debugFields quoting with
      | none => rfl
      | some text => simp [fields, fields'] at lists
  | some text =>
      cases fields' : action'.debugFields quoting with
      | none => simp [fields, fields'] at lists
      | some text' =>
          simp only [fields, fields', String.toList_append] at lists
          exact congrArg some (String.toList_injective (List.append_cancel_left lists))

theorem PolicyAction.debug_injective (action action' : PolicyAction)
    (same : action.debug quoting = action'.debug quoting) : action = action' := by
  have variants := variant_eq quoting action action' same
  have fields := fields_eq quoting action action' same variants
  cases action with
  | invokeTool toolName toolGroup =>
      cases action' <;> simp only [variant, String.reduceEq] at variants
      next toolName' toolGroup' =>
      simp only [debugFields, Option.some.injEq] at fields
      have lists := congrArg String.toList fields
      simp only [String.toList_append, List.append_assoc] at lists
      obtain ⟨name, lists⟩ := (delimited_quote quoting).after lists
      obtain ⟨group, _⟩ := (delimited_quote quoting).after lists
      rw [name, group]
  | delegateTask targetAgentId targetHandle =>
      cases action' <;> simp only [variant, String.reduceEq] at variants
      next targetAgentId' targetHandle' =>
      simp only [debugFields, Option.some.injEq] at fields
      have lists := congrArg String.toList fields
      simp only [String.toList_append, List.append_assoc] at lists
      obtain ⟨agent, lists⟩ := (delimited_quote quoting).after lists
      obtain ⟨handle, _⟩ := (delimited_handle quoting).after lists
      rw [agent, handle]
  | sendMessage targetAgentId targetHandle =>
      cases action' <;> simp only [variant, String.reduceEq] at variants
      next targetAgentId' targetHandle' =>
      simp only [debugFields, Option.some.injEq] at fields
      have lists := congrArg String.toList fields
      simp only [String.toList_append, List.append_assoc] at lists
      obtain ⟨agent, lists⟩ := (delimited_quote quoting).after lists
      obtain ⟨handle, _⟩ := (delimited_handle quoting).after lists
      rw [agent, handle]
  | receiveSignal connectorId channelHandle sender pairedAddresses =>
      cases action' <;> simp only [variant, String.reduceEq] at variants
      next connectorId' channelHandle' sender' pairedAddresses' =>
      simp only [debugFields, Option.some.injEq] at fields
      have lists := congrArg String.toList fields
      simp only [String.toList_append, List.append_assoc] at lists
      obtain ⟨connector, lists⟩ := (delimited_quote quoting).after lists
      obtain ⟨channel, lists⟩ := (delimited_handle quoting).after lists
      obtain ⟨contact, lists⟩ := (delimited_contact quoting).after lists
      obtain ⟨paired, _⟩ := (delimited_list quoting).after lists
      rw [connector, channel, contact, paired]
  | receiveMessage connectorId channelHandle sender pairedAddresses =>
      cases action' <;> simp only [variant, String.reduceEq] at variants
      next connectorId' channelHandle' sender' pairedAddresses' =>
      simp only [debugFields, Option.some.injEq] at fields
      have lists := congrArg String.toList fields
      simp only [String.toList_append, List.append_assoc] at lists
      obtain ⟨connector, lists⟩ := (delimited_quote quoting).after lists
      obtain ⟨channel, lists⟩ := (delimited_handle quoting).after lists
      obtain ⟨contact, lists⟩ := (delimited_contact quoting).after lists
      obtain ⟨paired, _⟩ := (delimited_list quoting).after lists
      rw [connector, channel, contact, paired]
  | listUsers =>
      cases action' <;> simp only [variant, String.reduceEq] at variants
      rfl
  | manageUsers targetUserId =>
      cases action' <;> simp only [variant, String.reduceEq] at variants
      next targetUserId' =>
      simp only [debugFields, Option.some.injEq] at fields
      have lists := congrArg String.toList fields
      simp only [String.toList_append, List.append_assoc] at lists
      obtain ⟨target, _⟩ := (delimited_quote quoting).after lists
      rw [target]
  | viewUsageAnalytics =>
      cases action' <;> simp only [variant, String.reduceEq] at variants
      rfl

end Debug

section Keys

variable (quoting : Quoting)

def decisionKey (userId : String) (handle : Handle) (action : PolicyAction) : String :=
  userId ++ ":" ++ handle.text ++ ":" ++ action.debug quoting

def agentToolsKey (userId : String) (handle : Handle) : String := userId ++ ":" ++ handle.text

def keyOf (userId key : String) : Bool := (userId ++ ":").toList.isPrefixOf key.toList

theorem keyOf_decisionKey (userId : String) (handle : Handle) (action : PolicyAction) :
    keyOf userId (decisionKey quoting userId handle action) = true := by
  rw [keyOf, List.isPrefixOf_iff_prefix]
  refine ⟨handle.text.toList ++ ":".toList ++ (action.debug quoting).toList, ?_⟩
  simp [decisionKey, String.toList_append]

theorem keyOf_agentToolsKey (userId : String) (handle : Handle) :
    keyOf userId (agentToolsKey userId handle) = true := by
  rw [keyOf, List.isPrefixOf_iff_prefix]
  exact ⟨handle.text.toList, by simp [agentToolsKey, String.toList_append]⟩

theorem agentToolsKey_inj {userId : String} {handle handle' : Handle}
    (same : agentToolsKey userId handle = agentToolsKey userId handle') : handle = handle' := by
  have lists := congrArg String.toList same
  simp only [agentToolsKey, String.toList_append] at lists
  exact Handle.ext (String.toList_injective (List.append_cancel_left lists))

-- A handle has no colon, so the key tells where it ends.
theorem decisionKey_inj {userId : String} {handle handle' : Handle} {action action' : PolicyAction}
    (same : decisionKey quoting userId handle action =
      decisionKey quoting userId handle' action') : handle = handle' ∧ action = action' := by
  have lists := congrArg String.toList same
  simp only [decisionKey, String.toList_append, List.append_assoc] at lists
  have tails := List.append_cancel_left (List.append_cancel_left lists)
  have handles : handle.text.toList = handle'.text.toList := by
    rw [← takeWhile_stop (PolicyAction.debug quoting action).toList handle.no_colon,
      ← takeWhile_stop (PolicyAction.debug quoting action').toList handle'.no_colon]
    exact congrArg _ tails
  rw [handles] at tails
  have actions := List.append_cancel_left (List.append_cancel_left tails)
  exact ⟨Handle.ext (String.toList_injective handles),
    PolicyAction.debug_injective quoting _ _ (String.toList_injective actions)⟩

end Keys

end Frona.Policy

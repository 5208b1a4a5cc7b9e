import AgenticRag.Db.Models

/-! Application errors and the owner, editor and viewer capability policy. -/
namespace AgenticRag.Security
open Db

/-- The error classes the knowledge services raise, with their public messages. -/
inductive AppException where
  | forbidden
  | notFound (message : String)
  | conflict (message : String)
  | invalidUpload (message : String)
  | unsupportedMediaType
  | uploadTooLarge
  | serviceUnavailable (message : String)
  deriving DecidableEq

inductive Capability where
  | knowledgeBaseCreate | knowledgeBaseRead | documentRead | documentUpload
  | ingestionJobRead | ingestionJobRetry
  deriving DecidableEq

def roleCapabilities : KnowledgeBaseRole → List Capability
  | .owner => [.knowledgeBaseRead, .documentRead, .documentUpload, .ingestionJobRead,
      .ingestionJobRetry]
  | .editor => [.knowledgeBaseRead, .documentRead, .documentUpload, .ingestionJobRead,
      .ingestionJobRetry]
  | .viewer => [.knowledgeBaseRead, .documentRead, .ingestionJobRead]

def capabilitiesFor : Option KnowledgeBaseRole → List Capability
  | none => [.knowledgeBaseCreate]
  | some role => .knowledgeBaseCreate :: roleCapabilities role

def requireCapability (role : Option KnowledgeBaseRole) (capability : Capability) :
    Except AppException Unit :=
  if capability ∈ capabilitiesFor role then .ok () else .error .forbidden

theorem requireCapability_ok {role : Option KnowledgeBaseRole} {capability : Capability} :
    requireCapability role capability = .ok () ↔ capability ∈ capabilitiesFor role := by
  unfold requireCapability
  split <;> simp_all

/-- Uploading and retrying take an owner or an editor. -/
theorem upload_roles {role : KnowledgeBaseRole} :
    Capability.documentUpload ∈ capabilitiesFor (some role) ↔ role = .owner ∨ role = .editor := by
  cases role <;> decide

end AgenticRag.Security

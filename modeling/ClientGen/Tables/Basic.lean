import ClientGen.Dictionary
import ClientGen.Document.Value
import ClientGen.Fault

/-!
# Lookup tables

The tables that steer how things are named and how responses are understood, with the entries that the
generator ships. A run can extend or replace them, see `ClientGen.Tables.Override`.
-/

namespace ClientGen

open ClientGen.Document

/-- What a well-known property of a response envelope holds: one object of a class, or a list of them. -/
structure EnvelopeTarget where
  dto : String
  isArray : Bool
  deriving DecidableEq, Repr

namespace Tables.Standard

/-- The collections of well-known first path segments. -/
def pathCollections : Dictionary String String := [
  ("dns", "Dns"), ("domain", "Domains"), ("handle", "Handles"), ("mail", "Emails"),
  ("user", "Users"), ("auth", "Auth"), ("webspace", "Webspaces"), ("tls", "Ssl"),
  ("reseller", "Resellers"), ("billing", "Billing"), ("invoice", "Invoices"),
  ("payment", "Payments"), ("rights", "Rights"), ("setting", "Settings"), ("batch", "Batch"),
  ("ticket", "Tickets"), ("maintenance", "Maintenance"), ("flexdns", "FlexDns"),
  ("gdpr", "Gdpr"), ("pgp", "Pgp"), ("vns", "Vns"), ("ens", "Ens"), ("tld", "Tlds"),
  ("stats", "Statistics"), ("prices", "Prices"), ("product", "Products"),
  ("affiliate", "Affiliates"), ("resellerPrices", "ResellerPrices"), ("file", "Files"),
  ("log", "Logs"), ("messageQueue", "MessageQueue"), ("domainContent", "DomainContent"),
  ("domainParking", "DomainParking")]

/-- The names of well-known parameters' enumerations, which are shared by all endpoints. -/
def enumNames : Dictionary String String := [
  ("status", "Status"), ("type", "Type"), ("action", "Action"), ("method", "Method"),
  ("state", "State"), ("role", "Role"), ("permission", "Permission"), ("mode", "Mode"),
  ("twoFaMethod", "TwoFaMethod"), ("two_fa_method", "TwoFaMethod"), ("section", "Section"),
  ("value", "Value"), ("redirectMode", "RedirectMode"), ("redirect_mode", "RedirectMode"),
  ("redirectCode", "RedirectCode"), ("redirect_code", "RedirectCode"),
  ("deleteMode", "DeleteMode"), ("delete_mode", "DeleteMode"), ("vendor", "Vendor"),
  ("resellerID", "ResellerID"), ("reseller_id", "ResellerID"), ("stateFilter", "StateFilter"),
  ("state_filter", "StateFilter"), ("selectedInterval", "SelectedInterval"),
  ("selected_interval", "SelectedInterval"), ("period", "Period"), ("tld", "Tld"),
  ("software", "Software"), ("group", "Group"), ("product", "Product"), ("products", "Products"),
  ("round", "Round"), ("settingsMode", "SettingsMode"), ("settings_mode", "SettingsMode"),
  ("userSettingsMode", "UserSettingsMode"), ("user_settings_mode", "UserSettingsMode"),
  ("rightsMode", "RightsMode"), ("rights_mode", "RightsMode"),
  ("rightsGroupsMode", "RightsGroupsMode"), ("rights_groups_mode", "RightsGroupsMode"),
  ("rightsCategoryMode", "RightsCategoryMode"), ("rights_category_mode", "RightsCategoryMode"),
  ("inheritanceMode", "InheritanceMode"), ("inheritance_mode", "InheritanceMode"),
  ("subresellerInheritanceMode", "SubresellerInheritanceMode"),
  ("subreseller_inheritance_mode", "SubresellerInheritanceMode"),
  ("subuserInheritanceMode", "SubuserInheritanceMode"),
  ("subuser_inheritance_mode", "SubuserInheritanceMode"), ("renewalMode", "RenewalMode"),
  ("renewal_mode", "RenewalMode"), ("expireDays", "ExpireDays"), ("expire_days", "ExpireDays"),
  ("ipVersion", "IpVersion"), ("ip_version", "IpVersion"), ("flexDNSipVersion", "IpVersion")]

/-- The parameter names in pascal case that name a shared enumeration themselves. -/
def sharedConcepts : List String := [
  "TwoFaMethod", "Section", "Value", "RedirectMode", "RedirectCode", "SettingsMode", "RightsMode"]

/-- The well-known properties of response envelopes. The first one that a response has counts. -/
def envelopeTargets : Dictionary String EnvelopeTarget := [
  ("domain", ⟨"Domain", false⟩), ("domains", ⟨"Domain", true⟩), ("user", ⟨"User", false⟩),
  ("users", ⟨"User", true⟩), ("reseller", ⟨"Reseller", false⟩),
  ("resellers", ⟨"Reseller", true⟩), ("webspace", ⟨"Webspace", false⟩),
  ("webspaces", ⟨"Webspace", true⟩), ("invoice", ⟨"Invoice", false⟩),
  ("invoices", ⟨"Invoice", true⟩), ("order", ⟨"Order", false⟩), ("orders", ⟨"Order", true⟩),
  ("tls", ⟨"Tls", false⟩), ("tlsCertificate", ⟨"TlsCertificate", false⟩),
  ("tlsCertificates", ⟨"Tls", true⟩), ("mail", ⟨"EmailAddress", false⟩),
  ("mails", ⟨"EmailAddress", true⟩), ("emailAddress", ⟨"EmailAddress", false⟩),
  ("emailAddresses", ⟨"EmailAddress", true⟩), ("handle", ⟨"Handle", false⟩),
  ("handles", ⟨"Handle", true⟩), ("ticket", ⟨"Ticket", false⟩), ("tickets", ⟨"Ticket", true⟩),
  ("batch", ⟨"BatchProcessing", false⟩), ("batches", ⟨"BatchProcessing", true⟩),
  ("pushRequest", ⟨"PushRequest", false⟩), ("pushRequests", ⟨"PushRequest", true⟩)]

/-- The verbs at the beginning of endpoint names, which say nothing about what a parameter is for. -/
def verbs : List String := [
  "get_", "post_", "put_", "patch_", "delete_", "head_", "options_"]

end Tables.Standard

/-- The lookup tables of a run. The version is kept as it was written. -/
structure Tables where
  version : Value := .int tablesVersion
  pathCollections : Dictionary String String := Tables.Standard.pathCollections
  enumNames : Dictionary String String := Tables.Standard.enumNames
  sharedConcepts : List String := Tables.Standard.sharedConcepts
  envelopeTargets : Dictionary String EnvelopeTarget := Tables.Standard.envelopeTargets
  verbs : List String := Tables.Standard.verbs

end ClientGen

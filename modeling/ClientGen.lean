import ClientGen.Main
import ClientGen.Proofs.Api.DirectReference
import ClientGen.Proofs.Api.DocumentOrder
import ClientGen.Proofs.Api.SharedComponents
import ClientGen.Proofs.Document.Dangling
import ClientGen.Proofs.Document.Leftover
import ClientGen.Proofs.Document.Plain
import ClientGen.Proofs.Enumeration.Decoded
import ClientGen.Proofs.Enumeration.OrderFree
import ClientGen.Proofs.Unit.ClassNames
import ClientGen.Proofs.Unit.DecodedClass
import ClientGen.Proofs.Unit.FieldEnums
import ClientGen.Proofs.Unit.Shadowing
import ClientGen.Proofs.Unit.Url
import ClientGen.Proofs.Unit.UrlValue
import ClientGen.Proofs.Unit.Wiring
import ClientGen.Proofs.Naming.Locality
import ClientGen.Proofs.Naming.RequestMembers
import ClientGen.Proofs.Api.PathParameters
import ClientGen.Proofs.Naming.Legality
import ClientGen.Proofs.Unit.Lookups
import ClientGen.Proofs.Api.ParameterLists
import ClientGen.Proofs.Schema.ReadOnly
import ClientGen.Proofs.Unit.DataFields
import ClientGen.Proofs.Enumeration.Members
import ClientGen.Proofs.Unit.ClassBody
import ClientGen.Proofs.Unit.Documentation
import ClientGen.Proofs.Document.Resolution
import ClientGen.Proofs.Document.Walk
import ClientGen.Proofs.Schema.Lineage
import ClientGen.Proofs.Tables.Spellings
import ClientGen.Proofs.Api.Descriptions
import ClientGen.Proofs.Naming.OperationNames

import RecipeClient.Data.Catalogue
import RecipeClient.Exchange.Script
import RecipeClient.Main
import RecipeClient.Theme
import RecipeClient.Proofs.PercentDecoding
import RecipeClient.Proofs.QueryDecoding
import RecipeClient.Proofs.Dates
import RecipeClient.Proofs.FilterReading
import RecipeClient.Proofs.Json.Canonical
import RecipeClient.Proofs.Json.Numbers
import RecipeClient.Proofs.Json.RecordReading
import RecipeClient.Proofs.Json.RecordRestoring
import RecipeClient.Proofs.Rewriting
import RecipeClient.Proofs.StoreMirror
import RecipeClient.Proofs.Calls
import RecipeClient.Proofs.StoreTasks
import RecipeClient.Proofs.Json.SkippedReading
import RecipeClient.Proofs.TokenAgreement
import RecipeClient.Proofs.Json.Lookup
import RecipeClient.Proofs.Json.UnknownMembers
import RecipeClient.Proofs.Editing
import RecipeClient.Proofs.Endpoints
import RecipeClient.Proofs.StoreIds
import RecipeClient.Proofs.CommandLine
import RecipeClient.Proofs.SavedTools
import RecipeClient.Proofs.FilterLiterals
import RecipeClient.Proofs.ByteOrder
import RecipeClient.Proofs.QueryLeaves
import RecipeClient.Proofs.SearchAddresses
import RecipeClient.Proofs.Json.TakenRecords
import RecipeClient.Proofs.Json.TextAgreement
import RecipeClient.Proofs.SendingBack
import RecipeClient.Proofs.PageAddresses
import RecipeClient.Proofs.ExportLinks
import RecipeClient.Proofs.Json.ObjectReading
import RecipeClient.Proofs.NarrowViews
import RecipeClient.Proofs.EmptyLists
import RecipeClient.Proofs.TitleCase
import RecipeClient.Proofs.Uploads
